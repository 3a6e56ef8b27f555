import ProjectConsistency.Proofs.Walk.Ending
import ProjectConsistency.Proofs.Walk.Following
import ProjectConsistency.Proofs.Walk.Pruned

/-!
# Session — a walk that is asked for one event at a time, and can be stopped

A caller asks the iterator for events until none comes.  A token can fire at any time, and it is
looked at before each entry, also before those of which nothing is reported.  This file defines:

* `Walk.Session` — events that wait, the iterator, and whether the walk was stopped;
* `Walk.Session.next` — the next event;
* `Walk.Session.events` — what a caller gets, if the token fires after a number of events;
* `Walk.Session.ofRoot` — the session of a root, which need not be there;
* `Walk.taken` — the same for the session of a root.

Each step of the loop in `next` makes the session smaller (`size_step`), so it ends.  Without a
token a session yields what the iterator does (`events_of_run`).  With one it yields a prefix of
that and the event that tells of the stop (`events_some`), by induction on what is left of the
session.  So a walk that is stopped is the beginning of the walk, and the analysis of it is
interrupted (`walk_stopped`).
-/

namespace ProjectConsistency
namespace Walk

open Iterator

/-- A walk whose events are taken one at a time. -/
structure Session where
  /-- Events that have come up and were not asked for yet. -/
  waiting : List Event
  iterator : Iterator
  /-- The walk was stopped. -/
  ended : Bool

namespace Session

/-- What is left of a session. -/
def size (plan : Plan) (s : Session) : Nat :=
  s.waiting.length + 2 * s.iterator.budget plan + s.iterator.stack.length + if s.ended then 0 else 1

/-- The next entry makes a session smaller, in whatever events it results. -/
theorem size_step {plan : Plan} {failure : Failures} {s : Session} {t : Turn}
    (hwaiting : s.waiting = []) (h : s.iterator.step plan failure = some t) :
    size plan ⟨t.events, t.next, s.ended⟩ < s.size plan := by
  obtain ⟨hpaid, hless⟩ := budget_step h
  simp only [size, hwaiting, List.length_nil]
  omega

section

variable (plan : Plan) (failure : Failures)

/-- The next event. The token is looked at before each entry. -/
def next (fired : Bool) (s : Session) : Option (Event × Session) :=
  if s.ended then none
  else if fired then some (.cancelled, { s with ended := true })
  else match _ : s.waiting with
    | e :: rest => some (e, { s with waiting := rest })
    | [] =>
        match _ : s.iterator.step plan failure with
        | none => none
        | some t => next fired ⟨t.events, t.next, s.ended⟩
termination_by s.size plan
decreasing_by exact size_step ‹_› ‹_›

variable {plan failure}

/-- Every answer of a session leaves less to do. -/
theorem size_next {fired : Bool} {s s' : Session} {e : Event}
    (h : s.next plan failure fired = some (e, s')) : s'.size plan < s.size plan := by
  fun_induction next plan failure fired s with
  | case1 => cases h
  | case2 s hended =>
      cases h
      simp [size, hended]
  | case3 s _ _ e rest hwaiting =>
      cases h
      simp [size, hwaiting]
  | case4 => cases h
  | case5 s _ _ hwaiting t hstep ih => exact (ih h).trans (size_step hwaiting hstep)

variable (plan failure)

/-- The token has fired when a number of events were taken. -/
def fires (limit : Option Nat) (taken : Nat) : Bool :=
  limit.any fun n => n ≤ taken

/-- What a caller gets that has taken some events; the token fires after as many as `limit` says. -/
def events (limit : Option Nat) (taken : Nat) (s : Session) : List Event :=
  match _ : s.next plan failure (fires limit taken) with
  | none => []
  | some (e, s') => e :: events limit (taken + 1) s'
termination_by s.size plan
decreasing_by exact size_next ‹_›

/-- The session of a root, with its plan. If the root is not there, one event says so. -/
def ofRoot (fs : FileSystem) (filter : NameFilter) (followLinks : Bool) (failure : Failures)
    (path : String) : Plan × Session :=
  let found := do
    let _ ← fs.lstat path
    fs.locate true path
  match found with
  | .error e =>
      (Plan.ofRoot fs filter followLinks path [], ⟨[.unreadable [] e], ⟨[], []⟩, false⟩)
  | .ok (root, _) =>
      let plan := Plan.ofRoot fs filter followLinks path root
      let first := start plan failure
      (plan, ⟨first.1, first.2, false⟩)

end

variable {plan : Plan} {failure : Failures} {s s' : Session}

/-! ## The next event -/

/-- After a stop nothing comes, whatever the token is. -/
theorem next_of_ended (h : s.ended = true) (fired : Bool) : s.next plan failure fired = none := by
  rw [next, if_pos h]

/-- A session that is cancelled says so and ends. -/
theorem next_of_fired (h : s.ended = false) :
    s.next plan failure true = some (.cancelled, { s with ended := true }) := by
  rw [next, if_neg (by simp [h]), if_pos rfl]

theorem next_waiting {e : Event} {rest : List Event} {it : Iterator} :
    next plan failure false ⟨e :: rest, it, false⟩ = some (e, ⟨rest, it, false⟩) := by
  rw [next]
  rfl

theorem next_end {it : Iterator} (h : it.step plan failure = none) :
    next plan failure false ⟨[], it, false⟩ = none := by
  rw [next]
  simp only [Bool.false_eq_true, if_false]
  split
  · rfl
  · rename_i hsome
    rw [h] at hsome
    cases hsome

/-- Entries of which nothing is reported are passed over. -/
theorem next_step {it : Iterator} {t : Turn} (h : it.step plan failure = some t) :
    next plan failure false ⟨[], it, false⟩
      = next plan failure false ⟨t.events, t.next, false⟩ := by
  rw [next]
  simp only [Bool.false_eq_true, if_false]
  split
  · rename_i hnone
    rw [h] at hnone
    cases hnone
  · rename_i t' hsome
    rw [h] at hsome
    cases hsome
    rfl

/-- As long as the token has not fired, the walk is not stopped. -/
theorem ended_of_next {fired : Bool} {e : Event} (hfired : fired = false)
    (h : s.next plan failure fired = some (e, s')) : s'.ended = false := by
  fun_induction next plan failure fired s with
  | case1 => cases h
  | case2 _ _ hfired' => simp [hfired] at hfired'
  | case3 s hended =>
      cases h
      simpa using hended
  | case4 => cases h
  | case5 _ _ _ _ _ _ ih => exact ih h

/-! ## Events -/

theorem events_of_none {limit : Option Nat} {taken : Nat}
    (h : s.next plan failure (fires limit taken) = none) :
    s.events plan failure limit taken = [] := by
  rw [events]
  split
  · rfl
  · rename_i heq
    rw [h] at heq
    cases heq

/-- The events of a session are its next one and those of what remains. -/
theorem events_of_some {limit : Option Nat} {taken : Nat} {e : Event}
    (h : s.next plan failure (fires limit taken) = some (e, s')) :
    s.events plan failure limit taken = e :: s'.events plan failure limit (taken + 1) := by
  rw [events]
  split
  · rename_i heq
    rw [h] at heq
    cases heq
  · rename_i heq
    rw [h] at heq
    cases heq
    rfl

/-- Without a token it does not matter how many events were taken. -/
theorem events_none (taken other : Nat) (s : Session) :
    s.events plan failure none taken = s.events plan failure none other := by
  -- By induction on what is left of the session.
  induction hsize : s.size plan using Nat.strongRecOn generalizing s taken other with
  | ind size ih =>
      cases hnext : s.next plan failure false with
      | none =>
          have hend : ∀ n, s.events plan failure none n = [] := fun n => events_of_none hnext
          rw [hend, hend]
      | some found =>
          obtain ⟨e, s'⟩ := found
          have hmore : ∀ n, s.events plan failure none n
              = e :: s'.events plan failure none (n + 1) := fun n => events_of_some hnext
          rw [hmore, hmore, ih _ (hsize ▸ size_next hnext) (taken + 1) (other + 1) s' rfl]

/-- With a token that fires after `k` events, the first `k` of all events come and then the one that
tells of the stop, if there are that many. -/
theorem events_some {k taken : Nat} (hended : s.ended = false) (htaken : taken ≤ k) :
    s.events plan failure (some k) taken
      = cut (some (k - taken)) (s.events plan failure none 0) := by
  induction hsize : s.size plan using Nat.strongRecOn generalizing s taken with
  | ind size ih =>
      by_cases hfires : k = taken
      · -- The token has fired, and after the stop nothing comes.
        subst hfires
        have hfired : fires (some k) k = true := by simp [fires]
        have hnext : s.next plan failure (fires (some k) k)
            = some (.cancelled, { s with ended := true }) := by rw [hfired, next_of_fired hended]
        rw [events_of_some hnext, events_of_none (next_of_ended rfl _)]
        simp [cut]
      · -- The token has not fired, and one event less is left until it does.
        have hfired : fires (some k) taken = false := by
          simp only [fires, Option.any_some, decide_eq_false_iff_not]
          omega
        cases hnext : s.next plan failure false with
        | none =>
            have hall : s.events plan failure none 0 = [] := events_of_none hnext
            rw [events_of_none (by rw [hfired, hnext]), hall]
            have hpos : ¬ k - taken ≤ 0 := by omega
            simp [cut, hpos]
        | some found =>
            obtain ⟨e, s'⟩ := found
            have hall : s.events plan failure none 0 = e :: s'.events plan failure none 0 := by
              have hmore : s.events plan failure none 0 = e :: s'.events plan failure none 1 :=
                events_of_some hnext
              rw [hmore, events_none 1 0]
            have hrest := ih _ (hsize ▸ size_next hnext) (ended_of_next rfl hnext)
              (Nat.lt_of_le_of_ne htaken (Ne.symm hfires)) rfl
            rw [events_of_some (by rw [hfired, hnext]), hrest, hall]
            obtain ⟨m, hm, hm'⟩ : ∃ m, k - taken = m + 1 ∧ k - (taken + 1) = m :=
              ⟨k - taken - 1, by omega, by omega⟩
            rw [hm, hm']
            by_cases hle : m ≤ (s'.events plan failure none 0).length <;> simp [cut, hle]

/-! ## Runs -/

theorem events_waiting (waiting : List Event) (it : Iterator) :
    events plan failure none 0 ⟨waiting, it, false⟩
      = waiting ++ events plan failure none 0 ⟨[], it, false⟩ := by
  induction waiting with
  | nil => rfl
  | cons e rest ih =>
      have hmore : events plan failure none 0 ⟨e :: rest, it, false⟩
          = e :: events plan failure none 1 ⟨rest, it, false⟩ := events_of_some next_waiting
      rw [hmore, events_none 1 0, ih, List.cons_append]

/-- A session with nothing waiting yields what the next turn brings. -/
theorem events_step {it : Iterator} {t : Turn} (h : it.step plan failure = some t) :
    events plan failure none 0 ⟨[], it, false⟩
      = events plan failure none 0 ⟨t.events, t.next, false⟩ := by
  have hnext := next_step h
  cases hlast : next plan failure false ⟨t.events, t.next, false⟩ with
  | none => exact (events_of_none (hnext.trans hlast)).trans (events_of_none hlast).symm
  | some found => exact (events_of_some (hnext.trans hlast)).trans (events_of_some hlast).symm

/-- Without a token a session yields what waits and what the iterator yields until it ends. -/
theorem events_of_run {it last : Iterator} {emitted : List (Nat × Event)} {entered : List Location}
    (h : Run plan failure it emitted entered last) (hlast : last.step plan failure = none)
    (waiting : List Event) :
    events plan failure none 0 ⟨waiting, it, false⟩ = waiting ++ emitted.map Prod.snd := by
  induction h generalizing waiting with
  | here it =>
      rw [events_waiting, events_of_none (next_end hlast)]
      rfl
  | step hstep _ ih => simp [events_waiting waiting, events_step hstep, ih hlast]

end Session

/-! ## Stops are not reported by entries -/

namespace Iterator

variable {plan : Plan} {failure : Failures}

theorem cancelled_not_mem_opened (pos : Position) (entries : List (String × Node))
    (entered : Option Location) (below : List Frame) (linked : Linked) :
    Event.cancelled ∉ (opened failure pos entries entered below linked).events := by
  cases h : failure.opening pos.path <;> simp [opened, h]

/-- A turn of the iterator is never cancelled by itself. -/
theorem cancelled_not_mem_step {it : Iterator} {t : Turn} (h : it.step plan failure = some t) :
    Event.cancelled ∉ t.events := by
  cases step_cases h with
  | leave => exact List.not_mem_nil
  | pass rest below linked _ hpath =>
      -- What is reported of an entry has a path with its name.
      intro hmem
      simpa [Event.path] using hpath _ hmem
  | descend => exact cancelled_not_mem_opened _ _ _ _ _
  | jump => exact cancelled_not_mem_opened _ _ _ _ _

/-- No run yields a cancellation, by induction on the run. -/
theorem Run.cancelled_not_mem {it last : Iterator} {emitted : List (Nat × Event)}
    {entered : List Location} (h : Run plan failure it emitted entered last) :
    Event.cancelled ∉ emitted.map Prod.snd := by
  induction h with
  | here _ => exact List.not_mem_nil
  | step hstep _ ih => simpa using ⟨cancelled_not_mem_step hstep, by simpa using ih⟩

theorem cancelled_not_mem_start : Event.cancelled ∉ (start plan failure).1 := by
  rcases start_cases plan failure with hstart | ⟨_, _, hstart⟩ <;> simp [hstart]

end Iterator

/-! ## Roots -/

section

variable (fs : FileSystem) (filter : NameFilter) (followLinks : Bool) (failure : Failures)

/-- The events of a root that a caller gets; a token fires after as many as `limit` says. -/
def taken (limit : Option Nat) (path : String) : List Event :=
  let (plan, s) := Session.ofRoot fs filter followLinks failure path
  s.events plan failure limit 0

variable (path : String)

/-- What a limited session takes is cut from what the unlimited one does. -/
theorem taken_some (k : Nat) :
    taken fs filter followLinks failure (some k) path
      = cut (some k) (taken fs filter followLinks failure none path) := by
  have hended : (Session.ofRoot fs filter followLinks failure path).2.ended = false := by
    simp only [Session.ofRoot]
    split <;> rfl
  exact Session.events_some hended (Nat.zero_le k)

/-- Without a token the caller gets the walk, and no event tells of a stop, whatever fails to be
read. -/
theorem taken_none :
    Event.cancelled ∉ taken fs filter followLinks failure none path ∧
      (failure = noFailure →
        taken fs filter followLinks failure none path = walk fs filter followLinks path) := by
  cases hlocate : fs.locate true path with
  | ok place =>
      obtain ⟨root, node⟩ := place
      obtain ⟨found, hlstat⟩ := FileSystem.lstat_isOk_of_locate hlocate
      -- An unlimited session goes on until the run ends.
      obtain ⟨emitted, entered, last, hrun, hlast, hwalk⟩ :=
        @exists_run_ofRoot fs filter followLinks path root node hlocate failure
      have htaken : taken fs filter followLinks failure none path
          = (start (Plan.ofRoot fs filter followLinks path root) failure).1
              ++ emitted.map Prod.snd := by
        simp only [taken, Session.ofRoot, hlstat, hlocate, bind, Except.bind]
        exact Session.events_of_run hrun hlast _
      refine ⟨?_, fun h => htaken.trans (hwalk h)⟩
      rw [htaken, List.mem_append, not_or]
      exact ⟨cancelled_not_mem_start, hrun.cancelled_not_mem⟩
  | error e =>
      obtain ⟨reason, htaken, hwalk⟩ : ∃ reason,
          taken fs filter followLinks failure none path = [.unreadable [] reason] ∧
            walk fs filter followLinks path = [.unreadable [] reason] := by
        -- A root that cannot be looked up is one event in either case.
        have hend : ∀ (plan : Plan) reason, Session.events plan failure none 0
            ⟨[.unreadable [] reason], ⟨[], []⟩, false⟩ = [.unreadable [] reason] :=
          fun plan reason => Session.events_of_run (.here _) rfl _
        cases hlstat : fs.lstat path with
        | ok _ => exact ⟨e, by simp [taken, Session.ofRoot, hlstat, hlocate, bind, Except.bind,
            hend], by simp [walk, hlstat, hlocate, bind, Except.bind]⟩
        | error e' => exact ⟨e', by simp [taken, Session.ofRoot, hlstat, bind, Except.bind,
            hend], by simp [walk, hlstat, bind, Except.bind]⟩
      exact ⟨by simp [htaken], fun _ => htaken.trans hwalk.symm⟩

end

@[simp]
theorem Event.isCancelled_iff {e : Event} : e.isCancelled = true ↔ e = cancelled := by
  cases e <;> simp [isCancelled]

/-- A stop is reported if there are as many events as it takes to stop the walk. -/
theorem cancelled_mem_cut_iff {events : List Event} (h : Event.cancelled ∉ events) (k : Nat) :
    Event.cancelled ∈ cut (some k) events ↔ k ≤ events.length := by
  by_cases hle : k ≤ events.length
  · simp [cut, hle]
  · simp [cut, hle, h]

/--
If a token fires after `k` events, also before the first, a walk that has as many reports its first
`k` events and the stop, and nothing after it; otherwise it reports what it does without a token.
Entries of which nothing is reported do not count, and the same holds whatever fails to be read.
The analysis of a directory is interrupted if the stop was reported, and otherwise describes what
the walk reports without a token.
-/
theorem walk_stopped (fs : FileSystem) (filter : NameFilter) (followLinks : Bool) (path : String)
    (k : Nat) :
    (∀ failure,
      let all := taken fs filter followLinks failure none path
      let stopped := taken fs filter followLinks failure (some k) path
      stopped = (if k ≤ all.length then all.take k ++ [.cancelled] else all) ∧
        Event.cancelled ∉ all ∧
        (failure = noFailure → all = walk fs filter followLinks path)) ∧
    ∀ settings : Settings, NameFilter.ofPatterns settings.scanner.exclude = .ok filter →
      settings.scanner.followLinks = followLinks → fs.isDirectory path = true →
      let stopped := taken fs filter followLinks noFailure (some k) path
      (Analysis.scan fs settings (some k) path = .error .interrupted ↔
          Event.cancelled ∈ stopped) ∧
        (Event.cancelled ∉ stopped → ∃ found, Analysis.scan fs settings none path = .ok found ∧
          Analysis.scan fs settings (some k) path = .ok found) := by
  refine ⟨fun failure => ⟨taken_some _ _ _ _ _ _, taken_none _ _ _ _ _⟩, ?_⟩
  intro settings hfilter hfollow hdirectory stopped
  subst hfollow
  obtain ⟨root, entries, hlocate⟩ := FileSystem.locate_of_isDirectory hdirectory
  obtain ⟨hnone, hwalk⟩ := taken_none fs filter settings.scanner.followLinks noFailure path
  have hstopped : stopped = cut (some k) (walk fs filter settings.scanner.followLinks path) := by
    rw [← hwalk rfl]
    exact taken_some _ _ _ _ _ _
  rw [hwalk rfl] at hnone
  have hscan := Analysis.scan_of_locate hfilter hlocate
  obtain ⟨found, hall⟩ : ∃ found, Analysis.scan fs settings none path = .ok found := by
    rw [hscan]
    simp [cut, Node.isDirectory, hnone]
  by_cases hcancelled : Event.cancelled ∈ stopped
  · have hinterrupted : Analysis.scan fs settings (some k) path = .error .interrupted := by
      rw [hscan, ← hstopped]
      simp [Node.isDirectory, hcancelled]
    exact ⟨iff_of_true hinterrupted hcancelled, fun h => absurd hcancelled h⟩
  · -- The walk ends before the token fires, so that nothing is cut off.
    have hmore : ¬ k ≤ (walk fs filter settings.scanner.followLinks path).length := by
      rwa [hstopped, cancelled_mem_cut_iff hnone] at hcancelled
    have hsame : Analysis.scan fs settings (some k) path = Analysis.scan fs settings none path := by
      have hcut : cut (some k) (walk fs filter settings.scanner.followLinks path)
          = cut none (walk fs filter settings.scanner.followLinks path) := if_neg hmore
      rw [hscan, hscan, hcut]
    refine ⟨iff_of_false ?_ hcancelled, fun _ => ⟨_, hall, hsame.trans hall⟩⟩
    simp [hsame, hall]

theorem walk_stopped_aliasSample :
    let settings : Settings := { scanner := { exclude := [], followLinks := true } }
    let stopped := taken aliasSample ⟨[], []⟩ true noFailure (some 2) "/app"
    stopped = [.directory ["src"], .file ["src", "index.ts"] ⟨#[120]⟩, .cancelled] ∧
      Analysis.scan aliasSample settings (some 2) "/app" = .error .interrupted := by
  intro settings stopped
  obtain ⟨hevents, hscan⟩ := walk_stopped aliasSample ⟨[], []⟩ true "/app" 2
  obtain ⟨hcut, _, hwalk⟩ := hevents noFailure
  have hstopped : stopped = [.directory ["src"], .file ["src", "index.ts"] ⟨#[120]⟩,
      .cancelled] := by
    simp only [stopped, hcut, hwalk rfl, walk_aliasSample.1]
    rfl
  have hmem : Event.cancelled ∈ stopped := by simp [hstopped]
  exact ⟨hstopped, (hscan settings rfl rfl rfl).1.2 hmem⟩

end Walk
end ProjectConsistency
