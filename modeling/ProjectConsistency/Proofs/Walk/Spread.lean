import ProjectConsistency.Proofs.Walk.Places

/-!
# Spread — the shape of a walk that may follow links

Links let a walk report directories that lie elsewhere, but under paths of its own.  This file
defines:

* `Walk.Spread` — events are below a path, each under another path, and a path is reported only after
  the directories above it;
* `Walk.Event.Found` — an event reports what its path leads to.

Both hold of any walk (`spread_walk`, `found_walk`), by induction on the links that are left and on
the tree.  What is reported of one entry stands below the path of that entry, so entries under
different names cannot report the same path.
-/

namespace ProjectConsistency
namespace Walk

/-- Events below a path, each under another path, with the directories on the way to them. -/
structure Spread (base : List String) (events : List Event) : Prop where
  below : ∀ e ∈ events, base <+: e.path ∧ e.path ≠ base
  distinct : events.Pairwise fun a b => a.path ≠ b.path
  preceded : ∀ e ∈ events, ∀ path, base <+: path → path ≠ base → path <+: e.path → path ≠ e.path →
    Event.directory path ∈ events

/-- What is reported of one entry: nothing, one event at its path, or a directory and what is below. -/
inductive Branch (path : List String) : List Event → Prop where
  | none : Branch path []
  | one {e : Event} (path_eq : e.path = path) : Branch path [e]
  | directory {events : List Event} (spread : Spread path events) :
      Branch path (.directory path :: events)

/-- Directories are entered in such a way that what they report is spread below them. -/
def Spreads (enter : Enter) : Prop :=
  ∀ pos entries linked, (Node.directory entries).WellFormed →
    Spread pos.path (enter pos entries linked).1

namespace Branch

variable {path : List String} {events : List Event}

theorem above (h : Branch path events) : ∀ e ∈ events, path <+: e.path := by
  intro e he
  cases h with
  | none => cases he
  | one path_eq =>
      obtain rfl : e = _ := by simpa using he
      exact path_eq ▸ List.prefix_rfl
  | directory spread =>
      rcases List.mem_cons.1 he with rfl | he
      · exact List.prefix_rfl
      · exact (spread.below e he).1

/-- A branch yields no path twice. -/
theorem distinct (h : Branch path events) : events.Pairwise fun a b => a.path ≠ b.path := by
  cases h with
  | none => exact List.Pairwise.nil
  | one _ => exact List.pairwise_singleton _ _
  | directory spread =>
      refine List.pairwise_cons.2 ⟨?_, spread.distinct⟩
      intro e he heq
      exact (spread.below e he).2 heq.symm

/-- The path of the entry, and the directories below it, come before what is below them. -/
theorem preceded (h : Branch path events) : ∀ e ∈ events, ∀ names, path <+: names →
    names <+: e.path → names ≠ e.path → Event.directory names ∈ events := by
  intro e he names hpath hnames hne
  cases h with
  | none => cases he
  | one path_eq =>
      obtain rfl : e = _ := by simpa using he
      exact absurd (hnames.eq_of_length_le (path_eq ▸ hpath.length_le)) hne
  | directory spread =>
      by_cases hsame : names = path
      · subst hsame
        exact List.mem_cons_self
      · rcases List.mem_cons.1 he with rfl | he
        · exact absurd (hnames.eq_of_length_le hpath.length_le) hne
        · exact List.mem_cons_of_mem _ (spread.preceded e he names hpath hsame hnames hne)

end Branch

/-! ## Entries in turn -/

section

variable {plan : Plan} {enter : Enter} {pos : Position}

/-- Under distinct names, the branches of a directory do not meet. -/
theorem spread_visitEntries {entries : List (String × Node)} (hnodup : (Assoc.keys entries).Nodup)
    (each : ∀ name node linked, (name, node) ∈ entries →
      Branch (pos.path ++ [name]) (visitNode plan enter pos name linked node).1)
    (linked : Linked) : Spread pos.path (visitEntries plan enter pos linked entries).1 := by
  have within : ∀ name node linked, (name, node) ∈ entries →
      ∀ e ∈ (visitNode plan enter pos name linked node).1, pos.path ++ [name] <+: e.path :=
    fun name node linked hmem => (each name node linked hmem).above
  refine ⟨?_, ?_, ?_⟩
  · intro e he
    rcases mem_visitEntries he with ⟨name, node, l, hmem, he⟩
    have habove := within name node l hmem e he
    refine ⟨(List.prefix_append _ _).trans habove, ?_⟩
    intro heq
    simpa [heq] using habove.length_le
  · exact visitEntries_distinct hnodup
      (fun name node linked hmem => (each name node linked hmem).distinct) within linked
  · intro e he path hbase hne hpath hproper
    induction entries generalizing linked with
    | nil => simp [visitEntries] at he
    | cons entry rest ih =>
        obtain ⟨name, node⟩ := entry
        have hcons : name ∉ Assoc.keys rest ∧ (Assoc.keys rest).Nodup := by
          simpa [Assoc.keys] using hnodup
        rw [visitEntries_cons] at he ⊢
        rcases List.mem_append.1 he with he | he
        · -- Between the directory and the event lies the path of the entry.
          have habove := within name node linked (by simp) e he
          have hlength : (pos.path ++ [name]).length ≤ path.length := by
            have hlt : pos.path.length < path.length := by
              refine lt_of_le_of_ne hbase.length_le ?_
              intro heq
              exact hne (hbase.eq_of_length heq).symm
            simpa using Nat.succ_le_of_lt hlt
          have hentry := List.prefix_of_prefix_length_le habove hpath hlength
          exact List.mem_append_left _
            ((each name node linked (by simp)).preceded e he path hentry hpath hproper)
        · exact List.mem_append_right _ (ih hcons.2
            (fun n x l hmem => each n x l (List.mem_cons_of_mem _ hmem)) _
            (fun n x l hmem => within n x l (List.mem_cons_of_mem _ hmem)) he)

theorem branch_visitLink (htree : plan.tree.WellFormed) (henter : Spreads enter) (name : String)
    (linked : Linked) :
    Branch (pos.path ++ [name]) (visitLink plan enter pos name linked).1 := by
  cases hpassage : passage plan noFailure pos name linked with
  | passed events =>
      rw [visitLink_passed hpassage]
      cases passed_of_passage hpassage with
      | nothing => exact .none
      | deadEnd => exact .one rfl
      | closed _ hopen => simp [noFailure] at hopen
      | file => exact .one rfl
  | into target entries =>
      rw [visitLink_into hpassage]
      have hentries := htree.of_get? (entered_of_passage hpassage).get?_target
      exact .directory (henter (pos.linked name target) entries _ hentries)

/-- A visit yields a branch, whatever the node is. -/
theorem branch_visitNode (htree : plan.tree.WellFormed) (henter : Spreads enter) {node : Node}
    (hwell : node.WellFormed) (pos : Position) (name : String) (linked : Linked) :
    Branch (pos.path ++ [name]) (visitNode plan enter pos name linked node).1 := by
  induction hwell generalizing pos name linked with
  | file content =>
      rw [visitNode_file]
      by_cases hexcluded : plan.filter.isExcluded name false = true
      · rw [if_pos hexcluded]
        exact .none
      · rw [if_neg hexcluded]
        exact .one rfl
  | link target => exact branch_visitLink htree henter name linked
  | @directory entries nodup _ _ _ ih =>
      rw [visitNode_directory]
      by_cases hexcluded : plan.filter.isExcluded name true = true
      · rw [if_pos hexcluded]
        exact .none
      · rw [if_neg hexcluded]
        exact .directory (spread_visitEntries nodup
          (fun n x l hmem => ih n x hmem (pos.child name) n l) linked)

end

/-- What a directory reports is spread below it, whatever the links are. -/
theorem spreads_enter {plan : Plan} (htree : plan.tree.WellFormed) (links : Nat) :
    Spreads (enter plan links) := by
  induction links with
  | zero =>
      intro pos entries linked hwell
      have hnone : Spreads fun _ _ linked => ([], linked) :=
        fun _ _ _ _ => ⟨by simp, List.Pairwise.nil, by simp⟩
      cases hwell with
      | directory nodup _ _ below =>
          exact spread_visitEntries nodup
            (fun name node l hmem => branch_visitNode htree hnone (below name node hmem) pos name l)
            linked
  | succ links ih =>
      intro pos entries linked hwell
      cases hwell with
      | directory nodup _ _ below =>
          exact spread_visitEntries nodup
            (fun name node l hmem => branch_visitNode htree ih (below name node hmem) pos name l)
            linked

/-! ## What paths lead to -/

/-- What the event reports is what its path leads to. -/
def Event.Found (plan : Plan) (e : Event) : Prop :=
  ∀ shape, e.shape? = some shape →
    ∃ at' node, plan.follow e.path = .ok (.found at' node) ∧ node.shape = shape

/-- An event is found when its path leads to a node of its shape. -/
theorem Event.found_of_follow {plan : Plan} {e : Event} {at' : Location} {node : Node}
    (h : plan.follow e.path = .ok (.found at' node)) (hshape : e.shape? = some node.shape) :
    e.Found plan := by
  intro shape heq
  exact ⟨at', node, h, Option.some.inj (hshape.symm.trans heq)⟩

/-- Directories to which their paths lead are entered in such a way that all events are found. -/
def Finds (plan : Plan) (enter : Enter) : Prop :=
  ∀ pos entries linked, plan.follow pos.path = .ok (.found pos.at' (.directory entries)) →
    ∀ e ∈ (enter pos entries linked).1, e.Found plan

section

variable {plan : Plan} {enter : Enter}

theorem found_visitLink (henter : Finds plan enter) (pos : Position) (name : String)
    (linked : Linked) : ∀ e ∈ (visitLink plan enter pos name linked).1, e.Found plan := by
  intro e he
  cases hpassage : passage plan noFailure pos name linked with
  | passed events =>
      rw [visitLink_passed hpassage] at he
      cases passed_of_passage hpassage with
      | nothing => cases he
      | deadEnd reason =>
          obtain rfl : e = .unreadable (pos.path ++ [name]) reason := by simpa using he
          exact fun _ h => nomatch h
      | closed _ hopen => simp [noFailure] at hopen
      | file at' content hleads =>
          obtain rfl : e = .file (pos.path ++ [name]) content := by simpa using he
          exact Event.found_of_follow hleads rfl
  | into target entries =>
      have hleads := (entered_of_passage hpassage).leads
      rw [visitLink_into hpassage] at he
      rcases List.mem_cons.1 he with rfl | he
      · exact Event.found_of_follow hleads rfl
      · exact henter (pos.linked name target) entries _ hleads e he

/-- Every event of a visit tells what its path leads to. -/
theorem found_visitNode (htree : plan.tree.WellFormed) (henter : Finds plan enter) {node : Node}
    (hwell : node.WellFormed) (pos : Position) (name : String) (linked : Linked)
    (hnode : (∀ target, node ≠ .link target) →
      plan.follow (pos.path ++ [name]) = .ok (.found (pos.at' ++ [name]) node)) :
    ∀ e ∈ (visitNode plan enter pos name linked node).1, e.Found plan := by
  induction hwell generalizing pos name linked with
  | file content =>
      intro e he
      obtain ⟨_, rfl⟩ := mem_visitNode_file.1 he
      exact Event.found_of_follow (hnode (by simp)) rfl
  | link target => exact found_visitLink henter pos name linked
  | @directory entries _ _ _ _ ih =>
      have hleads := hnode (by simp)
      intro e he
      rcases mem_visitNode_directory.1 he with ⟨_, rfl | he⟩
      · exact Event.found_of_follow hleads rfl
      · rcases mem_visitEntries he with ⟨n, x, l, hmem, he⟩
        exact ih n x hmem (pos.child name) n l (fun hreal => follow_entry htree hleads hmem hreal) e he

/-- Every event of the entries tells what its path leads to. -/
theorem found_visitEntries (htree : plan.tree.WellFormed) (henter : Finds plan enter) :
    Finds plan fun pos entries linked => visitEntries plan enter pos linked entries := by
  intro pos entries linked hleads e he
  rcases mem_visitEntries he with ⟨name, node, l, hmem, he⟩
  cases htree.of_get? (FileSystem.leads_of_follow hleads).get?_of_found with
  | directory _ _ _ below =>
      exact found_visitNode htree henter (below name node hmem) pos name l
        (fun hreal => follow_entry htree hleads hmem hreal) e he

end

/-- A directory reports what the paths in it lead to, whatever the links are. -/
theorem finds_enter {plan : Plan} (htree : plan.tree.WellFormed) (links : Nat) :
    Finds plan (enter plan links) := by
  induction links with
  | zero => exact found_visitEntries htree fun _ _ _ _ => by simp
  | succ links ih => exact found_visitEntries htree ih

/-! ## Whole walks -/

section

open FileSystem

variable {fs : FileSystem} {path : String} {root : Location} {project : Node}

/-- What a path below the root names is found from the root. -/
theorem leads_of_follow_below (hfs : fs.tree.WellFormed) {filter : NameFilter} {followLinks : Bool}
    (hlocate : fs.locate true path = .ok (root, project)) {names : List String} {at' : Location}
    {node : Node}
    (h : (Plan.ofRoot fs filter followLinks path root).follow names = .ok (.found at' node)) :
    Leads fs.tree.sorted true linkLimit root names (.found at' node) := by
  have hroot : (Plan.ofRoot fs filter followLinks path root).follow []
      = .ok (.found root project.sorted) := follow_ofRoot hfs hlocate
  have hway : Leads fs.tree.sorted true linkLimit (fs.start path) (namesOf path)
      (.found root project.sorted) := by
    simpa [Plan.follow, Plan.ofRoot] using leads_of_follow hroot
  -- The way leads through the root, with some links less for the names after it.
  rcases hway.of_append (leads_of_follow h) with ⟨left, hleft, hbelow⟩
  exact hbelow.mono hleft

/-- The events of a walk are spread below the root. -/
theorem spread_walk (hfs : fs.tree.WellFormed) (hlocate : fs.locate true path = .ok (root, project))
    (filter : NameFilter) (followLinks : Bool) : Spread [] (walk fs filter followLinks path) := by
  have hproject : project.WellFormed := hfs.of_get? (Analysis.get?_of_locate hlocate)
  rw [walk_of_locate hlocate, Plan.run, entries_ofRoot hfs hlocate]
  exact spreads_enter hfs.sorted _ ⟨root, [], []⟩ _ [] (wellFormed_entries hproject.sorted)

/-- What a walk reports is what its paths lead to, whether the way begins where the path of the root
begins or at the root. -/
theorem found_walk (hfs : fs.tree.WellFormed) (hlocate : fs.locate true path = .ok (root, project))
    (hproject : project.isDirectory = true) {filter : NameFilter} {followLinks : Bool} {e : Event}
    (he : e ∈ walk fs filter followLinks path) {shape : Shape} (hshape : e.shape? = some shape) :
    ∃ at' node, node.shape = shape ∧
      Leads fs.tree true linkLimit (fs.start path) (namesOf path ++ e.path) (.found at' node) ∧
      Leads fs.tree true linkLimit root e.path (.found at' node) := by
  have hroot : (Plan.ofRoot fs filter followLinks path root).follow []
      = .ok (.found root project.sorted) := follow_ofRoot hfs hlocate
  have hsorted : project.sorted = .directory project.sorted.entries := by
    cases project with
    | file _ => cases hproject
    | link _ => cases hproject
    | directory _ => rfl
  rw [walk_of_locate hlocate, Plan.run, entries_ofRoot hfs hlocate] at he
  rw [hsorted] at hroot
  rcases finds_enter hfs.sorted _ ⟨root, [], []⟩ _ [] hroot e he shape hshape with
    ⟨at', found, hfollow, hfound⟩
  rcases (leads_of_follow hfollow).of_sorted hfs with ⟨node, rfl, hway⟩
  rcases (leads_of_follow_below hfs hlocate hfollow).of_sorted hfs with ⟨_, _, hbelow⟩
  obtain rfl : node = _ := Option.some.inj (hway.get?_of_found.symm.trans hbelow.get?_of_found)
  exact ⟨at', node, (Node.shape_sorted node).symm.trans hfound, hway, hbelow⟩

end

end Walk
end ProjectConsistency
