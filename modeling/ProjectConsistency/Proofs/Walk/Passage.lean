import ProjectConsistency.Walk
import ProjectConsistency.Proofs.FileSystem.Leads

/-!
# Passage — what a link comes to on a walk

A walk meets a link at a path, finds what the path names and either goes over it or enters the
directory behind it.  This file defines:

* `Walk.Plan.deadEnd?` — why a path leads to nothing that can be used;
* `Walk.Passed` — what is reported of a link that is not entered;
* `Walk.Entered` — what holds of a directory that is entered through a link;

and says all that a link can come to (`passage_cases`): nothing, one event that is not of a directory,
or a directory that is new to the walk.  A link that leads to nothing that can be used is reported
whatever its name is (`passage_of_deadEnd`).  A directory that is met,
in whichever way, is reported before its entries (`visitNode_directory`, `visitLink_into`).
-/

namespace ProjectConsistency
namespace Walk

/-- Why a path leads to nothing that can be used, if it does. -/
def Plan.deadEnd? (plan : Plan) (failure : Failures) (path : List String) : Option OsError :=
  match plan.examine failure path with
  | .error e => some e
  | .ok (.free _ _) => some .notFound
  | .ok (.found _ _) => none

variable {plan : Plan} {failure : Failures} {enter : Enter} {pos : Position} {name : String}
  {linked : Linked}

/-! ## Links -/

/-- A link that is examined without failing leads where it is followed to. -/
theorem follow_of_examine {path : List String} {t : Target}
    (h : plan.examine failure path = .ok t) : plan.follow path = .ok t := by
  cases hfails : failure.examining path with
  | some reason => simp [Plan.examine, hfails] at h
  | none => simpa [Plan.examine, hfails] using h

theorem examine_noFailure (path : List String) : plan.examine noFailure path = plan.follow path :=
  rfl

/-- A link leads to a directory outside the root to which no link has led, and it is no loop. -/
structure Entered (plan : Plan) (pos : Position) (name : String) (linked : Linked)
    (target : Location) (entries : List (String × Node)) : Prop where
  follows : plan.followLinks = true
  leads : plan.follow (pos.path ++ [name]) = .ok (.found target (.directory entries))
  notAbove : target ∉ pos.at' :: pos.above
  kept : plan.filter.isExcluded name true = false
  outside : ¬ plan.root <+: target
  fresh : target ∉ linked

/-- What is reported of a link that is not entered. -/
inductive Passed (plan : Plan) (failure : Failures) (pos : Position) (name : String) :
    List Event → Prop where
  | nothing : Passed plan failure pos name []
  | deadEnd (reason : OsError) (hfollows : plan.followLinks = true)
      (h : plan.deadEnd? failure (pos.path ++ [name]) = some reason) :
      Passed plan failure pos name [.unreadable (pos.path ++ [name]) reason]
  /-- The directory behind the link cannot be opened, and the error tells no path. -/
  | closed (reason : OsError) (h : failure.opening (pos.path ++ [name]) = some reason) :
      Passed plan failure pos name [.unreadable [] reason]
  | file (at' : Location) (content : ByteArray)
      (hleads : plan.follow (pos.path ++ [name]) = .ok (.found at' (.file content)))
      (hkept : plan.filter.isExcluded name false = false) :
      Passed plan failure pos name [.file (pos.path ++ [name]) content]

/-- A link is passed over, or the directory behind it is new to the walk and can be opened. -/
theorem passage_cases (plan : Plan) (failure : Failures) (pos : Position) (name : String)
    (linked : Linked) :
    (∃ events, passage plan failure pos name linked = .passed events ∧
        Passed plan failure pos name events) ∨
      ∃ target entries, passage plan failure pos name linked = .into target entries ∧
        Entered plan pos name linked target entries ∧
        failure.opening (pos.path ++ [name]) = none := by
  by_cases hfollows : plan.followLinks = true
  · cases hexamine : plan.examine failure (pos.path ++ [name]) with
    | error reason =>
        exact .inl ⟨_, by simp [passage, hfollows, hexamine],
          .deadEnd reason hfollows (by simp [Plan.deadEnd?, hexamine])⟩
    | ok found =>
        have hleads := follow_of_examine hexamine
        cases found with
        | free _ _ =>
            exact .inl ⟨_, by simp [passage, hfollows, hexamine],
              .deadEnd .notFound hfollows (by simp [Plan.deadEnd?, hexamine])⟩
        | found place node =>
            cases node with
            | link _ => exact .inl ⟨[], by simp [passage, hfollows, hexamine], .nothing⟩
            | file content =>
                by_cases hexcluded : plan.filter.isExcluded name false = true
                · exact .inl ⟨[], by simp [passage, hfollows, hexamine, hexcluded], .nothing⟩
                · exact .inl ⟨_, by simp [passage, hfollows, hexamine, hexcluded],
                    .file place content hleads (by simpa using hexcluded)⟩
            | directory entries =>
                cases hopen : failure.opening (pos.path ++ [name]) with
                | some reason =>
                    exact .inl ⟨_, by simp [passage, hfollows, hexamine, hopen],
                      .closed reason hopen⟩
                | none =>
                    -- There are three reasons to go over a directory.
                    by_cases habove : place ∈ pos.at' :: pos.above
                    · exact .inl ⟨[], by simpa [passage, hfollows, hexamine, hopen] using
                        fun hne hnot => absurd (List.mem_cons.1 habove) (not_or.2 ⟨hne, hnot⟩),
                        .nothing⟩
                    by_cases hexcluded : plan.filter.isExcluded name true = true
                    · exact .inl ⟨[], by
                        simp [passage, hfollows, hexamine, hopen, hexcluded], .nothing⟩
                    by_cases hcovered : isCovered plan linked place = true
                    · exact .inl ⟨[], by
                        simp [passage, hfollows, hexamine, hopen, hcovered], .nothing⟩
                    · have hnew : ¬ plan.root <+: place ∧ place ∉ linked := by
                        simpa [isCovered] using hcovered
                      refine .inr ⟨place, entries, ?_, ⟨hfollows, hleads, habove,
                        by simpa using hexcluded, hnew.1, hnew.2⟩, rfl⟩
                      have hnot : ¬ (pos.at' :: pos.above).contains place = true := by
                        simpa using habove
                      simp only [passage, hfollows, hexamine, hopen, hexcluded, hcovered, hnot,
                        Bool.not_true, Bool.false_eq_true, if_false]
  · exact .inl ⟨[], by simp [passage, hfollows], .nothing⟩

/-- A link that leads into a directory has passed every check. -/
theorem entered_of_passage {target : Location} {entries : List (String × Node)}
    (h : passage plan failure pos name linked = .into target entries) :
    Entered plan pos name linked target entries := by
  rcases passage_cases plan failure pos name linked with ⟨_, heq, _⟩ | ⟨_, _, heq, hentered, _⟩
  · cases h.symm.trans heq
  · cases h.symm.trans heq
    exact hentered

/-- A link that is not entered yields what it leads to, or its failure. -/
theorem passed_of_passage {events : List Event}
    (h : passage plan failure pos name linked = .passed events) :
    Passed plan failure pos name events := by
  rcases passage_cases plan failure pos name linked with ⟨_, heq, hpassed⟩ | ⟨_, _, heq, _⟩
  · cases h.symm.trans heq
    exact hpassed
  · cases h.symm.trans heq

/-- A link that leads to nothing that can be used is reported, whatever its name is. -/
theorem passage_of_deadEnd {reason : OsError} (hfollows : plan.followLinks = true)
    (h : plan.deadEnd? failure (pos.path ++ [name]) = some reason) :
    passage plan failure pos name linked = .passed [.unreadable (pos.path ++ [name]) reason] := by
  unfold passage
  cases hexamine : plan.examine failure (pos.path ++ [name]) with
  | error e =>
      obtain rfl : e = reason := by simpa [Plan.deadEnd?, hexamine] using h
      simp [hfollows, hexamine]
  | ok found =>
      cases found with
      | free _ _ =>
          obtain rfl : .notFound = reason := by simpa [Plan.deadEnd?, hexamine] using h
          simp [hfollows, hexamine]
      | found _ _ => simp [Plan.deadEnd?, hexamine] at h

theorem passage_of_not_follows (h : plan.followLinks = false) :
    passage plan failure pos name linked = .passed [] := by
  simp [passage, h]

/-- The directory behind a link is there. -/
theorem Entered.get?_target {target : Location} {entries : List (String × Node)}
    (h : Entered plan pos name linked target entries) :
    plan.tree.get? target = some (.directory entries) :=
  (FileSystem.leads_of_follow h.leads).get?_of_found

/-! ## Entries -/

theorem visitLink_passed {events : List Event}
    (h : passage plan noFailure pos name linked = .passed events) :
    visitLink plan enter pos name linked = (events, linked) := by
  simp [visitLink, h]

theorem visitLink_into {target : Location} {entries : List (String × Node)}
    (h : passage plan noFailure pos name linked = .into target entries) :
    visitLink plan enter pos name linked
      = (.directory (pos.path ++ [name])
          :: (enter (pos.linked name target) entries (target :: linked)).1,
        (enter (pos.linked name target) entries (target :: linked)).2) := by
  simp [visitLink, h]

theorem visitNode_file (content : ByteArray) :
    visitNode plan enter pos name linked (.file content)
      = if plan.filter.isExcluded name false then ([], linked)
        else ([.file (pos.path ++ [name]) content], linked) := rfl

theorem visitNode_link (target : String) :
    visitNode plan enter pos name linked (.link target) = visitLink plan enter pos name linked :=
  rfl

theorem visitNode_directory (entries : List (String × Node)) :
    visitNode plan enter pos name linked (.directory entries)
      = if plan.filter.isExcluded name true then ([], linked)
        else (.directory (pos.path ++ [name])
            :: (visitEntries plan enter (pos.child name) linked entries).1,
          (visitEntries plan enter (pos.child name) linked entries).2) := rfl

theorem mem_visitNode_file {content : ByteArray} {e : Event} :
    e ∈ (visitNode plan enter pos name linked (.file content)).1 ↔
      plan.filter.isExcluded name false = false ∧ e = .file (pos.path ++ [name]) content := by
  rw [visitNode_file]
  by_cases hexcluded : plan.filter.isExcluded name false = true
  · simp [hexcluded]
  · simp [hexcluded]

/-- A directory that is let through comes before what lies below it. -/
theorem mem_visitNode_directory {entries : List (String × Node)} {e : Event} :
    e ∈ (visitNode plan enter pos name linked (.directory entries)).1 ↔
      plan.filter.isExcluded name true = false ∧
        (e = .directory (pos.path ++ [name]) ∨
          e ∈ (visitEntries plan enter (pos.child name) linked entries).1) := by
  rw [visitNode_directory]
  by_cases hexcluded : plan.filter.isExcluded name true = true
  · simp [hexcluded]
  · simp [hexcluded]

theorem visitEntries_cons (node : Node) (rest : List (String × Node)) :
    visitEntries plan enter pos linked ((name, node) :: rest)
      = ((visitNode plan enter pos name linked node).1
          ++ (visitEntries plan enter pos (visitNode plan enter pos name linked node).2 rest).1,
        (visitEntries plan enter pos (visitNode plan enter pos name linked node).2 rest).2) := rfl

end Walk
end ProjectConsistency
