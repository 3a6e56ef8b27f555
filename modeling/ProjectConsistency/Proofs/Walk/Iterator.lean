import ProjectConsistency.Proofs.Walk.Listing
import ProjectConsistency.Proofs.Walk.Root

/-!
# Iterator — a walk one entry at a time

`Walk.enter` computes all events of a directory at once, through a given number of links.  A caller
takes them one after another from a stack of open directories, and no number of links is given.
This file defines:

* `Walk.Iterator` — the open directories with the entries that are left, and the directories to
  which links have led;
* `Walk.Iterator.step` — what comes of the next entry, whatever fails to be used
  (`Walk.Failures`);
* `Walk.Iterator.Run` — steps one after another, with the events and the directories entered through
  links.

A step leaves the innermost directory, passes an entry over, or opens a directory (`step_cases`).
Events that tell a path come while as many directories are open as the path has names
(`Run.depth_eq`).
-/

namespace ProjectConsistency
namespace Walk

/-- The entries that are left of an open directory. -/
abbrev Frame := Position × List (String × Node)

/-- The open directories, the innermost first, and the directories to which links have led. -/
structure Iterator where
  stack : List Frame
  linked : Linked

/-- What comes of an entry: events, the directory that was entered if a link led to it, and how the
iterator goes on. -/
structure Turn where
  events : List Event
  entered : Option Location
  next : Iterator

namespace Iterator

section

variable (plan : Plan) (failure : Failures)

/-- What is reported of a file whose name is kept. -/
def fileEvent (path : List String) (content : ByteArray) : Event :=
  match failure.examining path with
  | none => .file path content
  | some reason => .unreadable path reason

/-- Opens a directory above others, unless it cannot be opened. -/
def opened (pos : Position) (entries : List (String × Node)) (entered : Option Location)
    (below : List Frame) (linked : Linked) : Turn :=
  match failure.opening pos.path with
  | none => ⟨[.directory pos.path], entered, ⟨(pos, entries) :: below, linked⟩⟩
  | some reason =>
      ⟨[.directory pos.path, .unreadable pos.path reason], entered, ⟨below, linked⟩⟩

/-- What comes of an entry of the innermost directory. -/
def turn (pos : Position) (name : String) (below : List Frame) (linked : Linked) : Node → Turn
  | .file content =>
      if plan.filter.isExcluded name false then ⟨[], none, ⟨below, linked⟩⟩
      else ⟨[fileEvent failure (pos.path ++ [name]) content], none, ⟨below, linked⟩⟩
  | .directory entries =>
      if plan.filter.isExcluded name true then ⟨[], none, ⟨below, linked⟩⟩
      else opened failure (pos.child name) entries none below linked
  | .link _ =>
      match passage plan failure pos name linked with
      | .passed events => ⟨events, none, ⟨below, linked⟩⟩
      | .into target entries =>
          opened failure (pos.linked name target) entries (some target) below (target :: linked)

/-- What comes of the next entry; nothing does if no directory is open. -/
def step : Iterator → Option Turn
  | ⟨[], _⟩ => none
  | ⟨(_, []) :: below, linked⟩ => some ⟨[], none, ⟨below, linked⟩⟩
  | ⟨(pos, (name, node) :: rest) :: below, linked⟩ =>
      some (turn plan failure pos name ((pos, rest) :: below) linked node)

/-- The iterator at the root, or an event if the root is a directory that cannot be opened. -/
def start : List Event × Iterator :=
  match plan.tree.get? plan.root, failure.opening [] with
  | some (.directory _), some reason => ([.unreadable [] reason], ⟨[], []⟩)
  | _, _ => ([], ⟨[(⟨plan.root, [], []⟩, plan.entries)], []⟩)

/-- Steps one after another.  An event comes with the number of directories that are open. -/
inductive Run : Iterator → List (Nat × Event) → List Location → Iterator → Prop where
  | here (it : Iterator) : Run it [] [] it
  | step {it last : Iterator} {t : Turn} {emitted : List (Nat × Event)} {entered : List Location}
      (hstep : it.step plan failure = some t) (rest : Run t.next emitted entered last) :
      Run it (t.events.map (Prod.mk it.stack.length) ++ emitted) (t.entered.toList ++ entered) last

end

variable {plan : Plan} {failure : Failures}

/-! ## Steps -/

theorem start_cases (plan : Plan) (failure : Failures) :
    start plan failure = ([], ⟨[(⟨plan.root, [], []⟩, plan.entries)], []⟩) ∨
      ∃ reason, failure.opening [] = some reason ∧
        start plan failure = ([.unreadable [] reason], ⟨[], []⟩) := by
  unfold start
  split
  · exact .inr ⟨_, ‹_›, rfl⟩
  · exact .inl rfl

theorem start_of_readable (h : failure.opening [] = none) :
    start plan failure = ([], ⟨[(⟨plan.root, [], []⟩, plan.entries)], []⟩) := by
  simp [start, h]

section

variable (pos : Position) (entries : List (String × Node)) (entered : Option Location)
  (below : List Frame) (linked : Linked)

@[simp]
theorem opened_entered : (opened failure pos entries entered below linked).entered = entered := by
  cases h : failure.opening pos.path <;> simp [opened, h]

@[simp]
theorem opened_linked : (opened failure pos entries entered below linked).next.linked = linked := by
  cases h : failure.opening pos.path <;> simp [opened, h]

theorem path_of_mem_opened :
    ∀ e ∈ (opened failure pos entries entered below linked).events, e.path = pos.path := by
  cases h : failure.opening pos.path <;> simp [opened, h, Event.path]

end

section

variable {pos : Position} (entries : List (String × Node)) (entered : Option Location)
  (below : List Frame) (linked : Linked)

/-- A directory that can be opened is reported and opened. -/
theorem opened_of_readable (h : failure.opening pos.path = none) :
    opened failure pos entries entered below linked
      = ⟨[.directory pos.path], entered, ⟨(pos, entries) :: below, linked⟩⟩ := by
  simp [opened, h]

/-- A directory that cannot be opened is reported twice. -/
theorem opened_of_failure {reason : OsError} (h : failure.opening pos.path = some reason) :
    opened failure pos entries entered below linked
      = ⟨[.directory pos.path, .unreadable pos.path reason], entered, ⟨below, linked⟩⟩ := by
  simp [opened, h]

end

theorem opened_noFailure (pos : Position) (entries : List (String × Node))
    (entered : Option Location) (below : List Frame) (linked : Linked) :
    opened noFailure pos entries entered below linked
      = ⟨[.directory pos.path], entered, ⟨(pos, entries) :: below, linked⟩⟩ :=
  opened_of_readable entries entered below linked rfl

/-- What a step can do. -/
inductive Step (plan : Plan) (failure : Failures) : Iterator → Turn → Prop where
  | leave (pos : Position) (below : List Frame) (linked : Linked) :
      Step plan failure ⟨(pos, []) :: below, linked⟩ ⟨[], none, ⟨below, linked⟩⟩
  | pass {pos : Position} {name : String} {node : Node} (rest : List (String × Node))
      (below : List Frame) (linked : Linked) {events : List Event} (hone : events.length ≤ 1)
      (hpath : ∀ e ∈ events, e.path = pos.path ++ [name] ∨ ∃ reason, e = .unreadable [] reason)
      (hnone : ∀ path, Event.directory path ∉ events)
      (hover : ∀ entries, node = .directory entries → plan.filter.isExcluded name true = true) :
      Step plan failure ⟨(pos, (name, node) :: rest) :: below, linked⟩
        ⟨events, none, ⟨(pos, rest) :: below, linked⟩⟩
  | descend (pos : Position) {name : String} (entries rest : List (String × Node))
      (below : List Frame) (linked : Linked) (hkept : plan.filter.isExcluded name true = false) :
      Step plan failure ⟨(pos, (name, .directory entries) :: rest) :: below, linked⟩
        (opened failure (pos.child name) entries none ((pos, rest) :: below) linked)
  | jump {pos : Position} {name : String} (link : String) (rest : List (String × Node))
      (below : List Frame) {linked : Linked} {target : Location} {entries : List (String × Node)}
      (h : Entered plan pos name linked target entries) :
      Step plan failure ⟨(pos, (name, .link link) :: rest) :: below, linked⟩
        (opened failure (pos.linked name target) entries (some target) ((pos, rest) :: below)
          (target :: linked))

theorem fileEvent_cases (failure : Failures) (path : List String) (content : ByteArray) :
    (failure.examining path = none ∧ fileEvent failure path content = .file path content) ∨
      ∃ reason, failure.examining path = some reason ∧
        fileEvent failure path content = .unreadable path reason := by
  cases h : failure.examining path with
  | none => exact .inl ⟨rfl, by simp [fileEvent, h]⟩
  | some reason => exact .inr ⟨reason, rfl, by simp [fileEvent, h]⟩

@[simp]
theorem fileEvent_path (failure : Failures) (path : List String) (content : ByteArray) :
    (fileEvent failure path content).path = path := by
  rcases fileEvent_cases failure path content with ⟨_, h⟩ | ⟨_, _, h⟩ <;> rw [h] <;> rfl

theorem fileEvent_ne_directory (failure : Failures) (path other : List String)
    (content : ByteArray) : Event.directory other ≠ fileEvent failure path content := by
  rcases fileEvent_cases failure path content with ⟨_, h⟩ | ⟨_, _, h⟩ <;> simp [h]

theorem step_cases {it : Iterator} {t : Turn} (h : it.step plan failure = some t) :
    Step plan failure it t := by
  obtain ⟨stack, linked⟩ := it
  cases stack with
  | nil => cases h
  | cons frame below =>
      obtain ⟨pos, entries⟩ := frame
      cases entries with
      | nil =>
          cases h
          exact .leave pos below linked
      | cons entry rest =>
          obtain ⟨name, node⟩ := entry
          obtain rfl : turn plan failure pos name ((pos, rest) :: below) linked node = t :=
            Option.some.inj h
          -- What a turn does depends on the entry that comes next.
          cases node with
          | file content =>
              dsimp only [turn]
              by_cases hexcluded : plan.filter.isExcluded name false = true
              · rw [if_pos hexcluded]
                exact .pass rest below linked (by simp) (by simp) (by simp) (by simp)
              · rw [if_neg hexcluded]
                exact .pass rest below linked (by simp) (by simp)
                  (by simp [fileEvent_ne_directory]) (by simp)
          | directory entries =>
              dsimp only [turn]
              by_cases hexcluded : plan.filter.isExcluded name true = true
              · rw [if_pos hexcluded]
                exact .pass rest below linked (by simp) (by simp) (by simp) (fun _ _ => hexcluded)
              · rw [if_neg hexcluded]
                exact .descend pos entries rest below linked (by simpa using hexcluded)
          | link target =>
              dsimp only [turn]
              cases hpassage : passage plan failure pos name linked with
              | passed events =>
                  -- A link that is not entered yields at most one event, whichever check stops it.
                  cases passed_of_passage hpassage <;>
                    exact .pass rest below linked (by simp) (by simp [Event.path]) (by simp)
                      (by simp)
              | into place entries => exact .jump target rest below (entered_of_passage hpassage)

/-- The iterator ends when no directory is open. -/
theorem step_eq_none_iff {it : Iterator} : it.step plan failure = none ↔ it.stack = [] := by
  obtain ⟨stack, linked⟩ := it
  cases stack with
  | nil => simp [step]
  | cons frame below =>
      obtain ⟨pos, entries⟩ := frame
      cases entries <;> simp [step]

/-! ## Runs -/

/-- Without the depths, the events of a step come before those of the rest of a run. -/
theorem map_snd_step (depth : Nat) (events : List Event) (emitted : List (Nat × Event)) :
    (events.map (Prod.mk depth) ++ emitted).map Prod.snd = events ++ emitted.map Prod.snd := by
  simp [Function.comp_def]

theorem Run.append {it mid last : Iterator} {emitted more : List (Nat × Event)}
    {entered also : List Location} (first : Run plan failure it emitted entered mid)
    (second : Run plan failure mid more also last) :
    Run plan failure it (emitted ++ more) (entered ++ also) last := by
  induction first with
  | here _ => exact second
  | step hstep _ ih =>
      rw [List.append_assoc, List.append_assoc]
      exact .step hstep (ih second)

/-- The directories to which links have led are those that were entered, the last first. -/
theorem Run.linked_eq {it last : Iterator} {emitted : List (Nat × Event)}
    {entered : List Location} (h : Run plan failure it emitted entered last) :
    last.linked = entered.reverse ++ it.linked := by
  induction h with
  | here it => rfl
  | step hstep _ ih =>
      rw [ih]
      -- Only a jump adds a directory, and it is the one that is entered.
      cases step_cases hstep with
      | leave => rfl
      | pass => rfl
      | descend => simp
      | jump => simp

/-! ## Depths -/

/-- Below each open directory there are as many as its path has names. -/
def Level : List Frame → Prop
  | [] => True
  | (pos, _) :: below => pos.path.length = below.length ∧ Level below

theorem level_opened {pos : Position} {entries : List (String × Node)} {entered : Option Location}
    {below : List Frame} {linked : Linked} (hpos : pos.path.length = below.length)
    (h : Level below) : Level (opened failure pos entries entered below linked).next.stack := by
  cases hfailure : failure.opening pos.path with
  | none => simpa [opened, hfailure, Level] using ⟨hpos, h⟩
  | some _ => simpa [opened, hfailure] using h

/-- A step keeps the level, and its events have the depth of the entry unless they tell no path. -/
theorem level_step {it : Iterator} {t : Turn} (h : it.step plan failure = some t)
    (hlevel : Level it.stack) :
    Level t.next.stack ∧
      ∀ e ∈ t.events, e.path.length = it.stack.length ∨ ∃ reason, e = .unreadable [] reason := by
  have opens : ∀ {pos : Position} {entries : List (String × Node)} {entered : Option Location}
      {below : List Frame} {linked : Linked}, pos.path.length = below.length → Level below →
      Level (opened failure pos entries entered below linked).next.stack ∧
        ∀ e ∈ (opened failure pos entries entered below linked).events,
          e.path.length = below.length ∨ ∃ reason, e = .unreadable [] reason := by
    intro pos entries entered below linked hpos hbelow
    refine ⟨level_opened hpos hbelow, ?_⟩
    intro e he
    left
    rw [path_of_mem_opened _ _ _ _ _ e he, hpos]
  cases step_cases h with
  | leave pos below linked => exact ⟨hlevel.2, by simp⟩
  | pass rest below linked hone hpath =>
      refine ⟨hlevel, ?_⟩
      intro e he
      exact (hpath e he).imp_left fun heq => by simp [heq, hlevel.1]
  | descend pos entries rest below linked _ =>
      exact opens (by simp [Position.child, hlevel.1]) hlevel
  | jump link rest below h =>
      exact opens (by simp [Position.linked, hlevel.1]) hlevel

/-- Events that tell a path come while as many directories are open as the path has names. -/
theorem Run.depth_eq {it last : Iterator} {emitted : List (Nat × Event)} {entered : List Location}
    (h : Run plan failure it emitted entered last) (hlevel : Level it.stack) :
    ∀ found ∈ emitted, found.2.path ≠ [] → found.1 = found.2.path.length := by
  induction h with
  | here _ => simp
  | step hstep _ ih =>
      obtain ⟨hnext, hevents⟩ := level_step hstep hlevel
      intro found hfound hpath
      rcases List.mem_append.1 hfound with hnow | hlater
      · rcases List.mem_map.1 hnow with ⟨e, he, rfl⟩
        rcases hevents e he with hdepth | ⟨reason, rfl⟩
        · exact hdepth.symm
        · exact absurd rfl hpath
      · exact ih hnext found hlater hpath

end Iterator
end Walk
end ProjectConsistency
