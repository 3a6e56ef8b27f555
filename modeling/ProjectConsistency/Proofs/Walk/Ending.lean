import Mathlib.Tactic.Ring
import ProjectConsistency.Proofs.FileSystem.Locations
import ProjectConsistency.Proofs.Walk.Iterator

/-!
# Ending — every walk comes to an end

Links can lead round in circles, so neither the depth of a path nor the part of the tree that has
been seen bounds a walk.  What does is a budget.  This file defines:

* `Walk.unled` — the directories outside the root to which no link has led;
* `Walk.Iterator.budget` — two events for each entry that is left, and for each entry of the tree as
  many times as there are directories in `unled`;
* `Walk.Emits` — the iterator yields events on its way, nothing failing.

Each step pays for its events from the budget, and the budget together with the number of open
directories gets smaller (`budget_step`).  So every iterator ends (`exists_run`), after no more
events than its budget allows (`Run.length_le`).  By the same argument the number of links of a walk
is not used up, and the walk is what the iterator yields (`emits_run`).  Both together bound the
events of a walk (`walk_ends`).
-/

namespace ProjectConsistency
namespace Walk

/-- The directories outside the root to which no link has led. -/
def unled (plan : Plan) (linked : Linked) : List Location :=
  (plan.tree.outside plan.root).filter fun at' => !linked.contains at'

/-- Two events for each entry that is left. -/
def pending : List Frame → Nat
  | [] => 0
  | (_, entries) :: below => 2 * (Node.locationsIn entries).length + pending below

/-- The most events that can still come. -/
def Iterator.budget (plan : Plan) (it : Iterator) : Nat :=
  pending it.stack + 2 * (plan.tree.entryCount * (unled plan it.linked).length)

variable {plan : Plan} {failure : Failures}

/-! ## Directories to which no link has led -/

/-- Entering a directory through a link uses it up. -/
theorem length_unled_lt {pos : Position} {name : String} {linked : Linked} {target : Location}
    {entries : List (String × Node)} (h : Entered plan pos name linked target entries) :
    (unled plan (target :: linked)).length < (unled plan linked).length := by
  have hsub : unled plan (target :: linked)
      = (unled plan linked).filter fun at' => !decide (at' = target) := by
    simp [unled, List.filter_filter]
  have houtside : target ∈ plan.tree.outside plan.root :=
    Node.mem_outside (Node.shapeAt_of_get? h.get?_target) h.outside
  have hmem : target ∈ unled plan linked := List.mem_filter.2 ⟨houtside, by simpa using h.fresh⟩
  rw [hsub]
  exact List.length_filter_lt_length_iff_exists.2 ⟨target, hmem, by simp⟩

theorem length_unled_append_le (more linked : Linked) :
    (unled plan (more ++ linked)).length ≤ (unled plan linked).length := by
  have hsub : unled plan (more ++ linked)
      = (unled plan linked).filter fun at' => !more.contains at' := by
    simp [unled, List.filter_filter]
  rw [hsub]
  exact List.length_filter_le _ _

/-- There are no more of them than the links through which a walk may lead. -/
theorem length_unled_le (plan : Plan) (linked : Linked) :
    (unled plan linked).length ≤ plan.tree.directoryCount := by
  rw [← Node.length_directories]
  exact Nat.le_trans (List.length_filter_le _ _) (List.length_filter_le _ _)

/-! ## The budget -/

namespace Iterator

/-- Opening a directory takes at most two events, and one open directory. -/
theorem budget_opened (plan : Plan) (failure : Failures) (pos : Position)
    (entries : List (String × Node)) (entered : Option Location) (below : List Frame)
    (linked : Linked) :
    let t := opened failure pos entries entered below linked
    let left := 2 * (Node.locationsIn entries).length + budget plan ⟨below, linked⟩
    t.events.length + t.next.budget plan ≤ 2 + left ∧
      t.next.budget plan + t.next.stack.length ≤ 1 + below.length + left := by
  intro t left
  cases hfailure : failure.opening pos.path with
  | none =>
      have ht : t = ⟨[.directory pos.path], entered, ⟨(pos, entries) :: below, linked⟩⟩ := by
        simp [t, opened, hfailure]
      simp only [ht, left, budget, pending, List.length_cons, List.length_nil]
      omega
  | some reason =>
      have ht : t = ⟨[.directory pos.path, .unreadable pos.path reason], entered,
          ⟨below, linked⟩⟩ := by
        simp [t, opened, hfailure]
      simp only [ht, left, List.length_cons, List.length_nil]
      omega

/-- A step pays for its events, and goes on with less. -/
theorem budget_step {it : Iterator} {t : Turn} (h : it.step plan failure = some t) :
    t.events.length + t.next.budget plan ≤ it.budget plan ∧
      t.next.budget plan + t.next.stack.length < it.budget plan + it.stack.length := by
  cases step_cases h with
  | leave pos below linked => simp [budget, pending, Node.locationsIn]
  | pass rest below linked hone _ =>
      simp only [budget, pending, Node.length_locationsIn_cons, List.length_cons]
      omega
  | @descend pos name entries rest below linked _ =>
      have hopened := budget_opened plan failure (pos.child name) entries none
        ((pos, rest) :: below) linked
      simp only [budget, pending, Node.length_locationsIn_cons, Node.entryCount_directory,
        List.length_cons] at hopened ⊢
      omega
  | @jump pos name link rest below linked target entries hentered =>
      have hopened := budget_opened plan failure (pos.linked name target) entries (some target)
        ((pos, rest) :: below) (target :: linked)
      -- The directory has its entries from what is set aside for it.
      have hentries : (Node.locationsIn entries).length ≤ plan.tree.entryCount := by
        rw [← Node.entryCount_directory]
        exact Node.entryCount_le hentered.get?_target
      have hunled := Nat.mul_le_mul_left plan.tree.entryCount (length_unled_lt hentered)
      rw [Nat.succ_eq_add_one, Nat.mul_add_one] at hunled
      have hlink : (Node.link link).entryCount = 0 := rfl
      simp only [budget, pending, Node.length_locationsIn_cons, hlink, List.length_cons]
        at hopened ⊢
      omega

/-- There are no more events than the budget allows. -/
theorem Run.length_le {it last : Iterator} {emitted : List (Nat × Event)}
    {entered : List Location} (h : Run plan failure it emitted entered last) :
    emitted.length + last.budget plan ≤ it.budget plan := by
  induction h with
  | here _ => simp
  | step hstep _ ih =>
      have hpaid := (budget_step hstep).1
      simp only [List.length_append, List.length_map]
      omega

/-- Every iterator ends: after finitely many steps no directory is open. -/
theorem exists_run (plan : Plan) (failure : Failures) (it : Iterator) :
    ∃ emitted entered linked, Run plan failure it emitted entered ⟨[], linked⟩ := by
  -- By induction on the budget together with the number of open directories.
  induction hsize : it.budget plan + it.stack.length using Nat.strongRecOn generalizing it with
  | ind size ih =>
      cases hstep : it.step plan failure with
      | none =>
          obtain ⟨stack, linked⟩ := it
          obtain rfl : stack = [] := step_eq_none_iff.1 hstep
          exact ⟨[], [], linked, .here _⟩
      | some t =>
          have hless : t.next.budget plan + t.next.stack.length < size :=
            hsize ▸ (budget_step hstep).2
          rcases ih _ hless t.next rfl with ⟨emitted, entered, linked, hrest⟩
          exact ⟨_, _, linked, .step hstep hrest⟩

/-- Links lead to different directories outside the root, and to none to which one led before. -/
theorem Run.entered {it last : Iterator} {emitted : List (Nat × Event)} {entered : List Location}
    (h : Run plan failure it emitted entered last) :
    entered.Nodup ∧ ∀ target ∈ entered, ¬ plan.root <+: target ∧
      plan.tree.shapeAt target = some .directory ∧ target ∉ it.linked := by
  induction h with
  | here _ => simp
  | @step it last t emitted entered hstep rest ih =>
      -- What is entered later is new after this step, so it is not what this step enters.
      obtain ⟨hnodup, hnew⟩ := ih
      cases step_cases hstep with
      | leave => exact ⟨hnodup, hnew⟩
      | pass => exact ⟨hnodup, hnew⟩
      | descend => simpa using And.intro hnodup hnew
      | @jump pos name link _ below linked target entries hentered =>
          simp only [opened_linked, List.mem_cons, not_or] at hnew
          simp only [opened_entered, Option.toList_some, List.cons_append, List.nil_append,
            List.nodup_cons, List.forall_mem_cons]
          refine ⟨⟨fun hmem => (hnew target hmem).2.2.1 rfl, hnodup⟩, ⟨hentered.outside,
            Node.shapeAt_of_get? hentered.get?_target, hentered.fresh⟩, ?_⟩
          intro other hmem
          obtain ⟨houtside, hdirectory, _, hother⟩ := hnew other hmem
          exact ⟨houtside, hdirectory, hother⟩

end Iterator

/-! ## What the iterator yields -/

open Iterator

/-- The iterator yields events on its way, if everything can be read. -/
def Emits (plan : Plan) (it : Iterator) (events : List Event) (last : Iterator) : Prop :=
  ∃ emitted entered, Run plan noFailure it emitted entered last ∧ emitted.map Prod.snd = events

namespace Emits

variable {it mid last : Iterator} {events more : List Event}

theorem here (plan : Plan) (it : Iterator) : Emits plan it [] it :=
  ⟨[], [], .here it, rfl⟩

theorem append (first : Emits plan it events mid) (second : Emits plan mid more last) :
    Emits plan it (events ++ more) last := by
  obtain ⟨emitted, entered, hfirst, rfl⟩ := first
  obtain ⟨emitted', entered', hsecond, rfl⟩ := second
  exact ⟨_, _, hfirst.append hsecond, by simp⟩

theorem of_step {t : Turn} (h : it.step plan noFailure = some t) :
    Emits plan it t.events t.next :=
  ⟨_, _, .step h (.here _), by simp [Function.comp_def]⟩

/-- On the way, links lead to more and more directories. -/
theorem length_unled_le (h : Emits plan it events last) :
    (unled plan last.linked).length ≤ (unled plan it.linked).length := by
  obtain ⟨_, entered, hrun, _⟩ := h
  rw [hrun.linked_eq]
  exact length_unled_append_le _ _

end Emits

/-- Behind a link, the iterator yields what the walk enters, if fewer than `links` directories are
left to which no link has led. -/
def Enters (plan : Plan) (enter : Enter) (links : Nat) : Prop :=
  ∀ pos entries linked below, (unled plan linked).length < links →
    Emits plan ⟨(pos, entries) :: below, linked⟩ (enter pos entries linked).1
      ⟨below, (enter pos entries linked).2⟩

section

variable {enter : Enter} {links : Nat}

mutual

theorem emits_visitNode (henter : Enters plan enter links) (node : Node) (pos : Position)
    (name : String) (rest : List (String × Node)) (below : List Frame) (linked : Linked)
    (hlinks : (unled plan linked).length ≤ links) :
    Emits plan ⟨(pos, (name, node) :: rest) :: below, linked⟩
      (visitNode plan enter pos name linked node).1
      ⟨(pos, rest) :: below, (visitNode plan enter pos name linked node).2⟩ := by
  have first : Emits plan ⟨(pos, (name, node) :: rest) :: below, linked⟩
      (turn plan noFailure pos name ((pos, rest) :: below) linked node).events
      (turn plan noFailure pos name ((pos, rest) :: below) linked node).next := .of_step rfl
  match node with
  | .file content =>
      rw [visitNode_file]
      by_cases hexcluded : plan.filter.isExcluded name false = true
      · simpa [turn, hexcluded] using first
      · simpa [turn, hexcluded, fileEvent, noFailure] using first
  | .directory entries =>
      rw [visitNode_directory]
      by_cases hexcluded : plan.filter.isExcluded name true = true
      · simpa [turn, hexcluded] using first
      · have hfirst : Emits plan ⟨(pos, (name, .directory entries) :: rest) :: below, linked⟩
            [.directory (pos.path ++ [name])]
            ⟨(pos.child name, entries) :: (pos, rest) :: below, linked⟩ := by
          simpa [turn, hexcluded, opened_noFailure, Position.child] using first
        rw [if_neg hexcluded]
        exact hfirst.append
          (emits_visitEntries henter entries (pos.child name) ((pos, rest) :: below) linked hlinks)
  | .link target =>
      rw [visitNode_link]
      cases hpassage : passage plan noFailure pos name linked with
      | passed events =>
          rw [visitLink_passed hpassage]
          simpa [turn, hpassage] using first
      | into place entries =>
          rw [visitLink_into hpassage]
          have hfirst : Emits plan ⟨(pos, (name, .link target) :: rest) :: below, linked⟩
              [.directory (pos.path ++ [name])]
              ⟨(pos.linked name place, entries) :: (pos, rest) :: below, place :: linked⟩ := by
            simpa [turn, hpassage, opened_noFailure, Position.linked] using first
          -- The link has used up a directory, so the walk may go on behind it.
          have hless := length_unled_lt (entered_of_passage hpassage)
          exact hfirst.append (henter _ entries _ _ (Nat.lt_of_lt_of_le hless hlinks))

theorem emits_visitEntries (henter : Enters plan enter links) (entries : List (String × Node))
    (pos : Position) (below : List Frame) (linked : Linked)
    (hlinks : (unled plan linked).length ≤ links) :
    Emits plan ⟨(pos, entries) :: below, linked⟩ (visitEntries plan enter pos linked entries).1
      ⟨below, (visitEntries plan enter pos linked entries).2⟩ := by
  match entries with
  | [] =>
      have hleave : step plan noFailure ⟨(pos, []) :: below, linked⟩
          = some ⟨[], none, ⟨below, linked⟩⟩ := rfl
      exact .of_step hleave
  | (name, node) :: rest =>
      have hnode := emits_visitNode henter node pos name rest below linked hlinks
      rw [visitEntries_cons]
      exact hnode.append
        (emits_visitEntries henter rest pos below _ (Nat.le_trans hnode.length_unled_le hlinks))

end

end

/-- The walk of a directory is what the iterator yields, if there are links enough for the
directories to which none has led. -/
theorem emits_enter (links : Nat) (pos : Position) (entries : List (String × Node))
    (linked : Linked) (below : List Frame) (hlinks : (unled plan linked).length ≤ links) :
    Emits plan ⟨(pos, entries) :: below, linked⟩ (enter plan links pos entries linked).1
      ⟨below, (enter plan links pos entries linked).2⟩ := by
  -- Behind a link there is one link less to follow, and one directory less to which none has led.
  induction links generalizing pos entries linked below with
  | zero =>
      have henter : Enters plan (fun _ _ linked => ([], linked)) 0 :=
        fun _ _ _ _ hless => absurd hless (Nat.not_lt_zero _)
      exact emits_visitEntries henter entries pos below linked hlinks
  | succ links ih =>
      have henter : Enters plan (enter plan links) (links + 1) :=
        fun pos entries linked below hless => ih pos entries linked below (Nat.lt_succ_iff.1 hless)
      exact emits_visitEntries henter entries pos below linked hlinks

/-- The walk is what the iterator yields from the root until no directory is open. -/
theorem emits_run (plan : Plan) :
    Emits plan (start plan noFailure).2 plan.run.1 ⟨[], plan.run.2⟩ := by
  rw [start_of_readable rfl]
  exact emits_enter _ _ _ _ _ (length_unled_le plan [])

/-! ## Ends -/

/-- The budget at a root that can be read is two events for each entry, once for the root and once
for each directory outside. -/
theorem budget_start_le (plan : Plan) (failure : Failures) :
    (start plan failure).2.budget plan
      ≤ 2 * (1 + (plan.tree.outside plan.root).length) * plan.tree.entryCount := by
  have hentries : (Node.locationsIn plan.entries).length ≤ plan.tree.entryCount := by
    cases hnode : plan.tree.get? plan.root with
    | none => simp [Plan.entries, hnode, Node.locationsIn]
    | some node =>
        have hpart := Node.entryCount_le hnode
        cases node with
        | file _ => simp [Plan.entries, hnode, Node.entries, Node.locationsIn]
        | link _ => simp [Plan.entries, hnode, Node.entries, Node.locationsIn]
        | directory entries =>
            rw [Node.entryCount_directory] at hpart
            simpa [Plan.entries, hnode, Node.entries] using hpart
  have hpending : pending (start plan failure).2.stack ≤ 2 * plan.tree.entryCount := by
    rcases start_cases plan failure with hstart | ⟨_, _, hstart⟩
    · simpa [hstart, pending] using Nat.mul_le_mul_left 2 hentries
    · simp [hstart, pending]
  -- No link has been gone through yet.
  have hunled : unled plan (start plan failure).2.linked = plan.tree.outside plan.root := by
    rcases start_cases plan failure with hstart | ⟨_, _, hstart⟩ <;> simp [hstart, unled]
  calc (start plan failure).2.budget plan
      ≤ 2 * plan.tree.entryCount
          + 2 * (plan.tree.entryCount * (plan.tree.outside plan.root).length) := by
        rw [budget, hunled]
        exact Nat.add_le_add_right hpending _
    _ = 2 * (1 + (plan.tree.outside plan.root).length) * plan.tree.entryCount := by ring

/-- At any time there have been no more events than the budget at the root, and one if the root
cannot be read. -/
theorem length_events_le {it : Iterator} {emitted : List (Nat × Event)} {entered : List Location}
    (h : Run plan failure (start plan failure).2 emitted entered it) :
    let events := (start plan failure).1 ++ emitted.map Prod.snd
    let times := 2 * (1 + (plan.tree.outside plan.root).length)
    (failure.opening [] = none → events.length ≤ times * plan.tree.entryCount) ∧
      events.length ≤ times * plan.tree.locations.length := by
  intro events times
  have hemitted : emitted.length ≤ times * plan.tree.entryCount :=
    ((Nat.le_add_right _ _).trans h.length_le).trans (budget_start_le plan failure)
  have hlength : events.length = (start plan failure).1.length + emitted.length := by
    simp [events]
  rcases start_cases plan failure with hstart | ⟨reason, hreason, hstart⟩
  · have hle : events.length ≤ times * plan.tree.entryCount := by
      simpa [hlength, hstart] using hemitted
    exact ⟨fun _ => hle, hle.trans (Nat.mul_le_mul_left _ (Nat.sub_le _ _))⟩
  · refine ⟨fun hnone => absurd (hreason.symm.trans hnone) (by simp), ?_⟩
    have hpos : 1 ≤ times := by omega
    rw [hlength, hstart, List.length_singleton, Node.length_locations, Nat.mul_add_one,
      Nat.add_comm]
    exact Nat.add_le_add hemitted hpos

section

variable {fs : FileSystem} {filter : NameFilter} {followLinks : Bool} {path : String}
  {root : Location} {node : Node}

/-- The iterator of a root that is there ends, and yields the walk if everything can be read. -/
theorem exists_run_ofRoot (hlocate : fs.locate true path = .ok (root, node))
    (failure : Failures) :
    let plan := Plan.ofRoot fs filter followLinks path root
    let first := start plan failure
    ∃ emitted entered last, Run plan failure first.2 emitted entered last ∧
      last.step plan failure = none ∧
      (failure = noFailure →
        first.1 ++ emitted.map Prod.snd = walk fs filter followLinks path) := by
  intro plan first
  by_cases hfailure : failure = noFailure
  · subst hfailure
    obtain ⟨emitted, entered, hrun, hevents⟩ := emits_run plan
    refine ⟨emitted, entered, _, hrun, step_eq_none_iff.2 rfl, fun _ => ?_⟩
    have hfirst : first.1 = [] := congrArg Prod.fst (start_of_readable rfl)
    rw [hfirst, hevents, List.nil_append, walk_of_locate hlocate]
  · obtain ⟨emitted, entered, linked, hrun⟩ := exists_run plan failure first.2
    exact ⟨emitted, entered, _, hrun, step_eq_none_iff.2 rfl, fun h => absurd h hfailure⟩

/-- At any time, links have led to different directories outside the root, and there have been no
more events than two for each entry, once for the root and once for each directory outside. -/
theorem bounds_ofRoot (hfs : fs.tree.WellFormed) {failure : Failures} {it : Iterator}
    {emitted : List (Nat × Event)} {entered : List Location} :
    let plan := Plan.ofRoot fs filter followLinks path root
    Run plan failure (start plan failure).2 emitted entered it →
      let events := (start plan failure).1 ++ emitted.map Prod.snd
      let times := 2 * (1 + (fs.tree.outside root).length)
      entered.Nodup ∧
      (∀ target ∈ entered, ¬ root <+: target ∧ fs.tree.shapeAt target = some .directory) ∧
      (failure.opening [] = none → events.length ≤ times * fs.tree.entryCount) ∧
      events.length ≤ times * fs.tree.locations.length := by
  intro plan hrun events times
  obtain ⟨hnodup, hentered⟩ := hrun.entered
  obtain ⟨hreadable, hall⟩ := length_events_le hrun
  -- The walk goes through the sorted tree, which has as many entries and directories.
  have houtside : (plan.tree.outside plan.root).length = (fs.tree.outside root).length :=
    Node.length_outside_sorted root fs.tree
  have hentries : plan.tree.entryCount = fs.tree.entryCount := Node.entryCount_sorted fs.tree
  have hlocations : plan.tree.locations.length = fs.tree.locations.length :=
    (Node.locations_sorted fs.tree).length_eq
  rw [houtside, hentries] at hreadable
  rw [houtside, hlocations] at hall
  refine ⟨hnodup, ?_, hreadable, hall⟩
  intro target htarget
  obtain ⟨hout, hdirectory, _⟩ := hentered target htarget
  exact ⟨hout, (hfs.shapeAt_sorted target).symm.trans hdirectory⟩

end

/--
Every walk ends.  If its root is not there, it reports that and nothing else.  Otherwise the
iterator comes to an end, whatever the links are and whatever fails to be read; links lead to
different directories outside the root; and at any time, so also if the walk is stopped, there have
been at most two events for each entry, once for the root and once for each directory outside.
-/
theorem walk_ends {fs : FileSystem} (hfs : fs.tree.WellFormed) (filter : NameFilter)
    (followLinks : Bool) (path : String) :
    ((∀ place, fs.locate true path ≠ .ok place) →
      ∃ reason, walk fs filter followLinks path = [.unreadable [] reason]) ∧
    ∀ root node, fs.locate true path = .ok (root, node) → ∀ failure,
      let plan := Plan.ofRoot fs filter followLinks path root
      let first := start plan failure
      (∃ emitted entered last, Run plan failure first.2 emitted entered last ∧
        last.step plan failure = none ∧
        (failure = noFailure →
          first.1 ++ emitted.map Prod.snd = walk fs filter followLinks path)) ∧
      ∀ emitted entered it, Run plan failure first.2 emitted entered it →
        let events := first.1 ++ emitted.map Prod.snd
        let times := 2 * (1 + (fs.tree.outside root).length)
        entered.Nodup ∧
        (∀ target ∈ entered, ¬ root <+: target ∧ fs.tree.shapeAt target = some .directory) ∧
        (failure.opening [] = none → events.length ≤ times * fs.tree.entryCount) ∧
        events.length ≤ times * fs.tree.locations.length := by
  refine ⟨?_, ?_⟩
  · intro hnowhere
    rcases walk_cases fs filter followLinks path with hreason | ⟨root, node, hlocate, _⟩
    · exact hreason
    · exact absurd hlocate (hnowhere _)
  · intro root node hlocate failure plan first
    exact ⟨exists_run_ofRoot hlocate failure, fun emitted entered it hrun =>
      bounds_ofRoot hfs hrun⟩

/-! ## A sample -/

def circlesSample : FileSystem where
  tree := .directory [
    ("app", .directory [
      ("back", .link ".."), ("gone", .link "nowhere"), ("self", .link "self"),
      ("side", .link "../lib")]),
    ("lib", .directory [("app", .link "../app"), ("deep", .directory []), ("lib", .link "../lib")])]

theorem wellFormed_circlesSample : circlesSample.tree.WellFormed :=
  have happ : (Node.directory [("back", .link ".."), ("gone", .link "nowhere"),
      ("self", .link "self"), ("side", .link "../lib")]).WellFormed :=
    .cons (by decide) (by decide) (by decide) (.link _)
      (.cons (by decide) (by decide) (by decide) (.link _)
        (.cons (by decide) (by decide) (by decide) (.link _)
          (.cons (by decide) (by decide) (by decide) (.link _) .nil)))
  have hlib : (Node.directory [("app", .link "../app"), ("deep", .directory []),
      ("lib", .link "../lib")]).WellFormed :=
    .cons (by decide) (by decide) (by decide) (.link _)
      (.cons (by decide) (by decide) (by decide) .nil
        (.cons (by decide) (by decide) (by decide) (.link _) .nil))
  .cons (by decide) (by decide) (by decide) happ
    (.cons (by decide) (by decide) (by decide) hlib .nil)

theorem walk_ends_circlesSample :
    let plan := Plan.ofRoot circlesSample ⟨[], []⟩ true "/app" ["app"]
    let first := start plan noFailure
    (∃ emitted entered last, Run plan noFailure first.2 emitted entered last ∧
      last.step plan noFailure = none ∧
      first.1 ++ emitted.map Prod.snd = walk circlesSample ⟨[], []⟩ true "/app") ∧
    ∀ emitted entered it, Run plan noFailure first.2 emitted entered it →
      entered.Nodup ∧ (first.1 ++ emitted.map Prod.snd).length ≤ 2 * (1 + 3) * 9 := by
  obtain ⟨hend, hall⟩ := (walk_ends wellFormed_circlesSample ⟨[], []⟩ true "/app").2 ["app"] _ rfl
    noFailure
  refine ⟨?_, ?_⟩
  · obtain ⟨emitted, entered, last, hrun, hlast, hwalk⟩ := hend
    exact ⟨emitted, entered, last, hrun, hlast, hwalk rfl⟩
  · intro emitted entered it hrun
    obtain ⟨hnodup, _, hreadable, _⟩ := hall emitted entered it hrun
    exact ⟨hnodup, hreadable rfl⟩

end Walk
end ProjectConsistency
