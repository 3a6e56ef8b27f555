import ProjectConsistency.Proofs.Walk.Ending
import ProjectConsistency.Proofs.Walk.Kept

/-!
# Places — where the directories are that a walk reports

A walk reports paths, and the paths lead to directories.  This file defines:

* `Walk.Plan.place?` — where the path of a directory leads;
* `Walk.Located` — the places of all directories that are reported, in order;
* `Walk.Plan.reached` — the directories that names lead to from a directory, as far as they are
  kept;
* `Walk.Fresh` — a directory that a step opens.

A directory is open after a step if it was before or is opened by the step (`frames_step`), so the
paths of open directories lead to what is left of them (`placed_step`).

What is still to come of a walk is known from its open directories (`awaited`), up to the
directories that links will lead to.  Each step keeps the account (`located_step`), so a whole walk
reports what is reached from the root, and each directory to which a link has led with what is
reached from there (`located_run`).
-/

namespace ProjectConsistency

open scoped List

/-- All names of a path are kept as names of directories. -/
def NameFilter.opens (filter : NameFilter) (path : List String) : Bool :=
  path.all fun name => !filter.isExcluded name true

namespace Walk

/-- The directory to which the path of an event leads, if the event reports one. -/
def Plan.place? (plan : Plan) : Event → Option Location
  | .directory path =>
      match plan.follow path with
      | .ok (.found at' _) => some at'
      | _ => none
  | _ => none

/-- The directories that are reported are at these places. -/
def Located (plan : Plan) (events : List Event) (places : List Location) : Prop :=
  (events.filter Event.namesDirectory).map plan.place? = places.map some

/-- The directories that can be entered below entries, through kept names only. -/
def keptIn (filter : NameFilter) (entries : List (String × Node)) : List Location :=
  (Node.directoriesIn entries).filter filter.opens

/-- The directories that names lead to from a directory, as far as they are kept. -/
def Plan.reached (plan : Plan) (at' : Location) : List Location :=
  (keptIn plan.filter ((plan.tree.get? at').elim [] Node.entries)).map (at' ++ ·)

/-- The directories that are still to come from open directories, without any link. -/
def awaited (filter : NameFilter) : List Frame → List Location
  | [] => []
  | (pos, entries) :: below =>
      (keptIn filter entries).map (pos.at' ++ ·) ++ awaited filter below

variable {plan : Plan}

/-! ## Events at places -/

/-- The places of two stretches of the walk, one after the other. -/
theorem Located.append {events more : List Event} {places also : List Location}
    (h : Located plan events places) (h' : Located plan more also) :
    Located plan (events ++ more) (places ++ also) := by
  rw [Located, List.filter_append, List.map_append, h, h', List.map_append]

theorem located_nil_of_none {events : List Event} (h : ∀ path, Event.directory path ∉ events) :
    Located plan events [] := by
  have hnone : events.filter Event.namesDirectory = [] := by
    refine List.filter_eq_nil_iff.2 ?_
    intro e he hdirectory
    cases e with
    | directory path => exact h path he
    | file _ _ => cases hdirectory
    | unreadable _ _ => cases hdirectory
    | cancelled => cases hdirectory
  simp [Located, hnone]

theorem located_directory {path : List String} {at' : Location} {node : Node}
    (h : plan.follow path = .ok (.found at' node)) :
    Located plan [.directory path] [at'] := by
  have hdirectory : [Event.directory path].filter Event.namesDirectory = [.directory path] := rfl
  rw [Located, hdirectory]
  simp [Plan.place?, h]

/-! ## Kept directories -/

/-- The directories kept in a listing, entry by entry. -/
theorem keptIn_cons (filter : NameFilter) (name : String) (node : Node)
    (rest : List (String × Node)) :
    keptIn filter ((name, node) :: rest)
      = (if filter.isExcluded name true then []
          else (node.directories.filter filter.opens).map (name :: ·)) ++ keptIn filter rest := by
  have hopens : ∀ below, filter.opens (name :: below)
      = (!filter.isExcluded name true && filter.opens below) := fun _ => rfl
  rw [keptIn, Node.directoriesIn, List.filter_append, List.filter_map, ← keptIn]
  by_cases hexcluded : filter.isExcluded name true = true
  · simp [hexcluded, Function.comp_def, hopens]
  · simp [hexcluded, Function.comp_def, hopens]

theorem keptIn_cons_directory {filter : NameFilter} {name : String}
    (hname : filter.isExcluded name true = false) (entries rest : List (String × Node)) :
    keptIn filter ((name, .directory entries) :: rest)
      = [name] :: (keptIn filter entries).map (name :: ·) ++ keptIn filter rest := by
  have hopens : filter.opens [] = true := rfl
  rw [keptIn_cons, hname]
  simp [Node.directories, keptIn, hopens]

/-- An entry that is no directory, or is excluded as one, adds nothing. -/
theorem keptIn_cons_over {filter : NameFilter} {name : String} {node : Node}
    (hover : ∀ entries, node = .directory entries → filter.isExcluded name true = true)
    (rest : List (String × Node)) : keptIn filter ((name, node) :: rest) = keptIn filter rest := by
  rw [keptIn_cons]
  cases node with
  | file _ => simp [Node.directories]
  | link _ => simp [Node.directories]
  | directory entries => simp [hover entries rfl]

/-- The places reached from a directory are the kept directories below it. -/
theorem Plan.reached_of_get? {at' : Location} {entries : List (String × Node)}
    (h : plan.tree.get? at' = some (.directory entries)) :
    plan.reached at' = (keptIn plan.filter entries).map (at' ++ ·) := by
  simp [Plan.reached, h, Node.entries]

/-! ## Positions -/

/-- The paths of the directories that are left of an open directory lead to them. -/
def Placed (plan : Plan) (frame : Frame) : Prop :=
  ∀ name entries, (name, Node.directory entries) ∈ frame.2 →
    plan.follow (frame.1.path ++ [name]) = .ok (.found (frame.1.at' ++ [name]) (.directory entries))

/-- From a directory to which its path leads, the paths lead on to what is in it. -/
theorem follow_entry (hwell : plan.tree.WellFormed) {path : List String} {at' : Location}
    {entries : List (String × Node)}
    (h : plan.follow path = .ok (.found at' (.directory entries))) {name : String} {node : Node}
    (hmem : (name, node) ∈ entries) (hreal : ∀ target, node ≠ .link target) :
    plan.follow (path ++ [name]) = .ok (.found (at' ++ [name]) node) := by
  have hway : FileSystem.Leads plan.tree true FileSystem.linkLimit plan.start
      (plan.names ++ path) (.found at' (.directory entries)) := FileSystem.leads_of_follow h
  have hdirectory := hway.get?_of_found
  cases hwell.of_get? hdirectory with
  | directory nodup plain short _ =>
      have hkey : name ∈ Assoc.keys entries := List.mem_map.2 ⟨_, hmem, rfl⟩
      have hname : EntryName name :=
        ⟨(plain name hkey).ne_dot, (plain name hkey).ne_dots, short name hkey⟩
      have hnode := Node.get?_entry nodup hdirectory hmem
      have hstep : FileSystem.Leads plan.tree true 0 at' [name] (.found (at' ++ [name]) node) :=
        .step hname hnode hreal (.here hnode)
      have hlonger := hway.append (by simp) hstep
      rw [List.append_assoc] at hlonger
      exact FileSystem.follow_of_leads hlonger

/-- A frame stands at the place that its path leads to. -/
theorem placed_of_follow (hwell : plan.tree.WellFormed) {pos : Position}
    {entries : List (String × Node)}
    (h : plan.follow pos.path = .ok (.found pos.at' (.directory entries))) :
    Placed plan (pos, entries) := by
  intro name below hmem
  exact follow_entry hwell h hmem (by simp)

theorem Placed.of_subset {pos : Position} {entries rest : List (String × Node)}
    (h : Placed plan (pos, entries)) (hrest : rest ⊆ entries) : Placed plan (pos, rest) :=
  fun name below hmem => h name below (hrest hmem)

/-! ## Open directories -/

/-- The directory of a frame has just been reported, inside one that was open. -/
structure Fresh (plan : Plan) (failure : Failures) (it : Iterator) (events : List Event)
    (frame : Frame) : Prop where
  reported : Event.directory frame.1.path ∈ events
  readable : failure.opening frame.1.path = none
  leads : plan.follow frame.1.path = .ok (.found frame.1.at' (.directory frame.2))
  inside : ∃ above ∈ it.stack, ∃ entry ∈ above.2,
    frame.1.path = above.1.path ++ [entry.1] ∧ plan.filter.isExcluded entry.1 true = false

namespace Iterator

variable {failure : Failures}

/-- What is open after a step was open before, with no fewer entries, or is opened by the step. -/
theorem frames_step {it : Iterator} {t : Turn} (h : it.step plan failure = some t)
    (hplaced : ∀ frame ∈ it.stack, Placed plan frame) :
    ∀ frame ∈ t.next.stack,
      (∃ former ∈ it.stack, former.1 = frame.1 ∧ frame.2 ⊆ former.2) ∨
        Fresh plan failure it t.events frame := by
  -- A directory that is opened is above those that stay open.
  have opens : ∀ {pos pos' : Position} (entry : String × Node) {rest : List (String × Node)}
      {below : List Frame} {linked linked' : Linked} {entries : List (String × Node)}
      {entered : Option Location}, pos'.path = pos.path ++ [entry.1] →
      plan.filter.isExcluded entry.1 true = false →
      plan.follow pos'.path = .ok (.found pos'.at' (.directory entries)) →
      let t := opened failure pos' entries entered ((pos, rest) :: below) linked'
      ∀ frame ∈ t.next.stack,
        (∃ former ∈ (pos, entry :: rest) :: below, former.1 = frame.1 ∧ frame.2 ⊆ former.2) ∨
          Fresh plan failure ⟨(pos, entry :: rest) :: below, linked⟩ t.events frame := by
    intro pos pos' entry rest below _ linked' entries entered hpath hkept hleads t
    have hbelow : ∀ frame ∈ (pos, rest) :: below,
        ∃ former ∈ (pos, entry :: rest) :: below, former.1 = frame.1 ∧ frame.2 ⊆ former.2 :=
      List.forall_mem_cons.2 ⟨⟨_, List.mem_cons_self, rfl, List.subset_cons_self _ _⟩,
        fun frame hframe => ⟨frame, List.mem_cons_of_mem _ hframe, rfl, List.Subset.refl _⟩⟩
    intro frame hframe
    cases hfailure : failure.opening pos'.path with
    | some reason =>
        simp only [t, opened_of_failure entries entered _ linked' hfailure] at hframe
        exact .inl (hbelow frame hframe)
    | none =>
        simp only [t, opened_of_readable entries entered _ linked' hfailure] at hframe ⊢
        rcases List.mem_cons.1 hframe with rfl | hframe
        · exact .inr ⟨by simp, hfailure, hleads,
            ⟨_, List.mem_cons_self, _, List.mem_cons_self, hpath, hkept⟩⟩
        · exact .inl (hbelow frame hframe)
  cases step_cases h with
  | leave pos below linked =>
      exact fun frame hframe =>
        .inl ⟨frame, List.mem_cons_of_mem _ hframe, rfl, List.Subset.refl _⟩
  | @pass pos name node rest below linked =>
      intro frame hframe
      rcases List.mem_cons.1 hframe with rfl | hframe
      · exact .inl ⟨_, List.mem_cons_self, rfl, List.subset_cons_self _ _⟩
      · exact .inl ⟨frame, List.mem_cons_of_mem _ hframe, rfl, List.Subset.refl _⟩
  | @descend pos name entries rest below linked hkept =>
      have hfollow : plan.follow (pos.child name).path
          = .ok (.found (pos.child name).at' (.directory entries)) :=
        hplaced _ List.mem_cons_self name entries List.mem_cons_self
      exact opens (name, .directory entries) rfl hkept hfollow
  | @jump pos name link rest below linked target entries hentered =>
      exact opens (name, .link link) rfl hentered.kept hentered.leads

/-- The paths of open directories still lead to what is left of them after a step. -/
theorem placed_step (hwell : plan.tree.WellFormed) {it : Iterator} {t : Turn}
    (h : it.step plan failure = some t) (hplaced : ∀ frame ∈ it.stack, Placed plan frame) :
    ∀ frame ∈ t.next.stack, Placed plan frame := by
  intro frame hframe
  rcases frames_step h hplaced frame hframe with ⟨former, hformer, hpos, hrest⟩ | hfresh
  · have hformer : Placed plan (frame.1, former.2) := hpos ▸ hplaced former hformer
    exact hformer.of_subset hrest
  · exact placed_of_follow hwell hfresh.leads

/-! ## The account -/

/-- A step keeps the account: what it reports has been awaited, or a link has led there. -/
theorem located_step {it : Iterator} {t : Turn} (h : it.step plan noFailure = some t)
    (hplaced : ∀ frame ∈ it.stack, Placed plan frame) :
    ∃ places, Located plan t.events places ∧
      places ++ awaited plan.filter t.next.stack
        = (t.entered.toList.flatMap fun target => target :: plan.reached target)
          ++ awaited plan.filter it.stack := by
  cases step_cases h with
  | leave pos below linked =>
      exact ⟨[], rfl, by simp [awaited, keptIn, Node.directoriesIn]⟩
  | @pass pos name node rest below linked events _ _ hnone hover =>
      exact ⟨[], located_nil_of_none hnone, by simp [awaited, keptIn_cons_over hover]⟩
  | @descend pos name entries rest below linked hkept =>
      -- The directory has been awaited, and what is below it is still awaited.
      have hfollow : plan.follow (pos.child name).path
          = .ok (.found (pos.child name).at' (.directory entries)) :=
        hplaced _ List.mem_cons_self name entries List.mem_cons_self
      rw [opened_noFailure]
      refine ⟨_, located_directory hfollow, ?_⟩
      simp [awaited, keptIn_cons_directory hkept, Position.child, Function.comp_def]
  | @jump pos name link rest below linked target entries hentered =>
      -- The link itself was not awaited; now all that is reached from the directory behind it is.
      have hfollow : plan.follow (pos.linked name target).path
          = .ok (.found (pos.linked name target).at' (.directory entries)) := hentered.leads
      have hlink : keptIn plan.filter ((name, Node.link link) :: rest) = keptIn plan.filter rest :=
        keptIn_cons_over (by simp) rest
      rw [opened_noFailure]
      refine ⟨_, located_directory hfollow, ?_⟩
      simp [awaited, hlink, Plan.reached_of_get? hentered.get?_target, Position.linked]

/-- A run to the end reports what was awaited, and all that is reached from where links have led. -/
theorem Run.located (hwell : plan.tree.WellFormed) {it last : Iterator}
    {emitted : List (Nat × Event)} {entered : List Location}
    (h : Run plan noFailure it emitted entered last) (hlast : last.stack = [])
    (hplaced : ∀ frame ∈ it.stack, Placed plan frame) :
    ∃ places, Located plan (emitted.map Prod.snd) places ∧
      places.Perm ((entered.flatMap fun target => target :: plan.reached target)
        ++ awaited plan.filter it.stack) := by
  induction h with
  | here it => exact ⟨[], rfl, by simp [hlast, awaited]⟩
  | @step it last t emitted entered hstep _ ih =>
      obtain ⟨now, hnow, haccount⟩ := located_step hstep hplaced
      obtain ⟨later, hlater, hperm⟩ := ih hlast (placed_step hwell hstep hplaced)
      refine ⟨now ++ later, ?_, ?_⟩
      · rw [map_snd_step]
        exact hnow.append hlater
      · -- What the step reports changes places with what links lead to later.
        let visits := fun target => target :: plan.reached target
        calc now ++ later
            ~ now ++ (entered.flatMap visits ++ awaited plan.filter t.next.stack) :=
              hperm.append_left now
          _ ~ entered.flatMap visits ++ (now ++ awaited plan.filter t.next.stack) :=
              List.perm_append_comm_assoc _ _ _
          _ = entered.flatMap visits
                ++ (t.entered.toList.flatMap visits ++ awaited plan.filter it.stack) := by
              rw [haccount]
          _ ~ t.entered.toList.flatMap visits
                ++ (entered.flatMap visits ++ awaited plan.filter it.stack) :=
              List.perm_append_comm_assoc _ _ _
          _ = (t.entered.toList ++ entered).flatMap visits ++ awaited plan.filter it.stack := by
              rw [List.flatMap_append, List.append_assoc]

end Iterator

/-- A walk reports what is reached from the root, and the directories to which links have led with
what is reached from them, each as often as it is reached. -/
theorem located_run (hwell : plan.tree.WellFormed)
    (hplaced : Placed plan (⟨plan.root, [], []⟩, plan.entries)) :
    ∃ places, Located plan plan.run.1 places ∧
      places.Perm ((plan.run.2.flatMap fun target => target :: plan.reached target)
        ++ plan.reached plan.root) := by
  obtain ⟨emitted, entered, hrun, hevents⟩ := emits_run plan
  rw [Iterator.start_of_readable rfl] at hrun
  have hlinked : plan.run.2 = entered.reverse := by simpa using hrun.linked_eq
  obtain ⟨places, hlocated, hperm⟩ := hrun.located hwell rfl (by simpa using hplaced)
  refine ⟨places, hevents ▸ hlocated, hperm.trans ?_⟩
  rw [hlinked]
  refine ((List.reverse_perm entered).symm.flatMap_right _).append ?_
  simp [awaited, Plan.reached, Plan.entries]

end Walk
end ProjectConsistency
