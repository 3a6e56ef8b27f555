import ProjectConsistency.Proofs.FileSystem.WellFormed
import ProjectConsistency.Proofs.Walk.Passage

/-!
# Listing — what a walk reports

A walk goes through the entries of a directory, and through the directories that links lead to.
This file defines:

* `Walk.Event.path`, `Walk.Event.shape?`, `Walk.Event.depth` — the path of what an event reports, what
  was there, and how deep;
* `Walk.Event.Proper` — the event reports an entry, under names that directories can hold;
* `Walk.Lists` — events report what is in a node, each location once.

Whatever links there are, events are proper (`proper_enter`).  If there are no links, or they are
not followed, the events below a directory list what is in it (`enter_lists`).  Both go by induction
on a well-formed tree; a directory adds the events of its entries, which have different names.
-/

namespace ProjectConsistency
namespace Walk

/-! ## Events -/

def Event.path : Event → List String
  | directory path => path
  | file path _ => path
  | unreadable path _ => path
  | cancelled => []

/-- What was found at the path. -/
def Event.shape? : Event → Option Shape
  | directory _ => some .directory
  | file _ content => some (.file content)
  | _ => none

/-- The number of names in the path of an entry. -/
def Event.depth : Event → Nat
  | directory path => path.length
  | file path _ => path.length
  | _ => 0

/-- The walk goes on, and its path has names that directories can hold. -/
structure Event.Proper (e : Event) : Prop where
  goesOn : e.isCancelled = false
  plain : ∀ name ∈ e.path, PlainName name
  ne_nil : e.shape?.isSome → e.path ≠ []

/-- The events report what is in a node whose path is given, each location once. -/
structure Lists (node : Node) (base : List String) (events : List Event) : Prop where
  reports : ∀ e ∈ events, ∃ below, e.path = base ++ below ∧ node.shapeAt below = e.shape?
  distinct : events.Pairwise fun a b => a.path ≠ b.path

/-! ## Entries in turn -/

section

variable {plan : Plan} {enter : Enter} {pos : Position} {linked : Linked}

theorem mem_visitEntries {entries : List (String × Node)} {e : Event}
    (he : e ∈ (visitEntries plan enter pos linked entries).1) :
    ∃ name node linked', (name, node) ∈ entries ∧
      e ∈ (visitNode plan enter pos name linked' node).1 := by
  induction entries generalizing linked with
  | nil => simp [visitEntries] at he
  | cons entry rest ih =>
      obtain ⟨name, node⟩ := entry
      rcases List.mem_append.1 he with he | he
      · exact ⟨name, node, linked, by simp, he⟩
      · rcases ih he with ⟨n, x, l, hmem, he⟩
        exact ⟨n, x, l, List.mem_cons_of_mem _ hmem, he⟩

/-- What is reported of a link is the link itself, or comes from a directory that it leads to. -/
theorem mem_visitLink {name : String} {e : Event}
    (he : e ∈ (visitLink plan enter pos name linked).1) :
    (e.path = pos.path ++ [name] ∧ e.isCancelled = false) ∨
      ∃ target entries, Entered plan pos name linked target entries ∧
        e ∈ (enter (pos.linked name target) entries (target :: linked)).1 := by
  cases hpassage : passage plan noFailure pos name linked with
  | passed events =>
      rw [visitLink_passed hpassage] at he
      cases passed_of_passage hpassage with
      | nothing => simp at he
      | deadEnd reason =>
          obtain rfl : e = .unreadable (pos.path ++ [name]) reason := by simpa using he
          exact .inl ⟨rfl, rfl⟩
      | closed _ hopen => simp [noFailure] at hopen
      | file _ content =>
          obtain rfl : e = .file (pos.path ++ [name]) content := by simpa using he
          exact .inl ⟨rfl, rfl⟩
  | into target entries =>
      rw [visitLink_into hpassage] at he
      rcases List.mem_cons.1 he with rfl | he
      · exact .inl ⟨rfl, rfl⟩
      · exact .inr ⟨target, entries, entered_of_passage hpassage, he⟩

/-! ## With links -/

theorem proper_entry {e : Event} (hgoes : e.isCancelled = false) {above : List String}
    {name : String} (hpath : e.path = above ++ [name]) (habove : ∀ n ∈ above, PlainName n)
    (hname : PlainName name) : e.Proper := by
  refine ⟨hgoes, ?_, fun _ => by simp [hpath]⟩
  rw [hpath]
  exact List.forall_mem_append.2 ⟨habove, by simpa using hname⟩

section

variable (henter : ∀ pos entries linked, (Node.directory entries).WellFormed →
    (∀ n ∈ pos.path, PlainName n) → ∀ e ∈ (enter pos entries linked).1, e.Proper)

include henter

theorem proper_visitLink (htree : plan.tree.WellFormed) {name : String} (hname : PlainName name)
    (hpos : ∀ n ∈ pos.path, PlainName n) :
    ∀ e ∈ (visitLink plan enter pos name linked).1, e.Proper := by
  intro e he
  rcases mem_visitLink he with ⟨hpath, hgoes⟩ | ⟨target, entries, hentered, he⟩
  · exact proper_entry hgoes hpath hpos hname
  · have hplain : ∀ n ∈ (pos.linked name target).path, PlainName n :=
      List.forall_mem_append.2 ⟨hpos, by simpa using hname⟩
    exact henter _ entries _ (htree.of_get? hentered.get?_target) hplain e he

theorem proper_visitNode (htree : plan.tree.WellFormed) {node : Node} (hwell : node.WellFormed)
    {name : String} (hname : PlainName name) (hpos : ∀ n ∈ pos.path, PlainName n) :
    ∀ e ∈ (visitNode plan enter pos name linked node).1, e.Proper := by
  induction hwell generalizing pos name linked with
  | file content =>
      intro e he
      obtain ⟨_, rfl⟩ := mem_visitNode_file.1 he
      exact proper_entry rfl rfl hpos hname
  | link target => exact proper_visitLink henter htree hname hpos
  | @directory entries _ plain _ _ ih =>
      intro e he
      have hdirectory : (Event.directory (pos.path ++ [name])).Proper :=
        proper_entry rfl rfl hpos hname
      rcases mem_visitNode_directory.1 he with ⟨_, rfl | he⟩
      · exact hdirectory
      · rcases mem_visitEntries he with ⟨n, x, l, hmem, he⟩
        exact ih n x hmem (plain n (List.mem_map.2 ⟨_, hmem, rfl⟩)) hdirectory.plain e he

theorem proper_visitEntries (htree : plan.tree.WellFormed) {entries : List (String × Node)}
    (hwell : (Node.directory entries).WellFormed) (hpos : ∀ n ∈ pos.path, PlainName n) :
    ∀ e ∈ (visitEntries plan enter pos linked entries).1, e.Proper := by
  intro e he
  cases hwell with
  | directory _ plain _ below =>
      rcases mem_visitEntries he with ⟨n, x, l, hmem, he⟩
      exact proper_visitNode henter htree (below n x hmem) (plain n (List.mem_map.2 ⟨_, hmem, rfl⟩))
        hpos e he

end

/-- Whatever the links are, the events below a directory are proper. -/
theorem proper_enter (htree : plan.tree.WellFormed) (links : Nat)
    {entries : List (String × Node)} (hwell : (Node.directory entries).WellFormed)
    (hpos : ∀ n ∈ pos.path, PlainName n) :
    ∀ e ∈ (Walk.enter plan links pos entries linked).1, e.Proper := by
  induction links generalizing pos entries linked with
  | zero => exact proper_visitEntries (by simp) htree hwell hpos
  | succ links ih =>
      exact proper_visitEntries (fun _ _ _ hentries habove => ih hentries habove) htree hwell hpos

/-! ## Without links -/

/-- Events of entries under different names have different paths. -/
theorem visitEntries_distinct {entries : List (String × Node)}
    (hnodup : (Assoc.keys entries).Nodup)
    (each : ∀ name node linked, (name, node) ∈ entries →
      (visitNode plan enter pos name linked node).1.Pairwise fun a b => a.path ≠ b.path)
    (within : ∀ name node linked, (name, node) ∈ entries →
      ∀ e ∈ (visitNode plan enter pos name linked node).1, pos.path ++ [name] <+: e.path)
    (linked : Linked) :
    (visitEntries plan enter pos linked entries).1.Pairwise fun a b => a.path ≠ b.path := by
  induction entries generalizing linked with
  | nil => exact List.Pairwise.nil
  | cons entry rest ih =>
      obtain ⟨name, node⟩ := entry
      have hcons : name ∉ Assoc.keys rest ∧ (Assoc.keys rest).Nodup := by
        simpa [Assoc.keys] using hnodup
      have hlater := ih hcons.2
        (fun n x l hmem => each n x l (List.mem_cons_of_mem _ hmem))
        (fun n x l hmem => within n x l (List.mem_cons_of_mem _ hmem))
      rw [visitEntries_cons, List.pairwise_append]
      refine ⟨each name node linked (by simp), hlater _, ?_⟩
      intro a ha b hb hpath
      rcases mem_visitEntries hb with ⟨n, x, l, hmem, hb⟩
      obtain ⟨below, ha⟩ := within name node linked (by simp) a ha
      obtain ⟨below', hb⟩ := within n x l (List.mem_cons_of_mem _ hmem) b hb
      -- Equal paths agree in the name after the path of the directory.
      have hname : name = n := by
        rw [← ha, ← hb, List.append_assoc, List.append_assoc] at hpath
        exact (List.cons.inj (List.append_cancel_left hpath)).1
      exact hcons.1 (hname ▸ List.mem_map.2 ⟨_, hmem, rfl⟩)

/-- A location in a directory is a location in one of its entries. -/
theorem shapeAt_cons_of_mem {entries : List (String × Node)} (hnodup : (Assoc.keys entries).Nodup)
    {name : String} {node : Node} (hmem : (name, node) ∈ entries) (below : Location) :
    (Node.directory entries).shapeAt (name :: below) = node.shapeAt below := by
  have hfind := (Assoc.find?_eq_some_iff hnodup).2 hmem
  simp [Node.shapeAt, Node.get?, hfind]

theorem visitEntries_lists {entries : List (String × Node)} (hnodup : (Assoc.keys entries).Nodup)
    (each : ∀ name node linked, (name, node) ∈ entries →
      Lists node (pos.path ++ [name]) (visitNode plan enter pos name linked node).1) :
    Lists (.directory entries) pos.path (visitEntries plan enter pos linked entries).1 ∧
      ∀ e ∈ (visitEntries plan enter pos linked entries).1, e.path ≠ pos.path := by
  have mem : ∀ e ∈ (visitEntries plan enter pos linked entries).1, ∃ name below,
      e.path = pos.path ++ name :: below ∧
        (Node.directory entries).shapeAt (name :: below) = e.shape? := by
    intro e he
    rcases mem_visitEntries he with ⟨name, node, l, hmem, he⟩
    rcases (each name node l hmem).reports e he with ⟨below, hpath, hshape⟩
    refine ⟨name, below, by simpa using hpath, ?_⟩
    rw [shapeAt_cons_of_mem hnodup hmem, hshape]
  have within : ∀ name node linked, (name, node) ∈ entries →
      ∀ e ∈ (visitNode plan enter pos name linked node).1, pos.path ++ [name] <+: e.path := by
    intro name node linked hmem e he
    rcases (each name node linked hmem).reports e he with ⟨below, hpath, _⟩
    exact hpath ▸ List.prefix_append _ below
  have hdistinct := visitEntries_distinct hnodup
    (fun name node linked hmem => (each name node linked hmem).distinct) within linked
  refine ⟨⟨?_, hdistinct⟩, ?_⟩
  · intro e he
    rcases mem e he with ⟨name, below, hpath, hshape⟩
    exact ⟨name :: below, hpath, hshape⟩
  · intro e he hpath
    rcases mem e he with ⟨name, below, hbelow, _⟩
    rw [hbelow] at hpath
    simp at hpath

end

/-- The parts of a directory without links are without links. -/
theorem linkFree_of_mem {entries : List (String × Node)} (hnodup : (Assoc.keys entries).Nodup)
    (h : (Node.directory entries).LinkFree) {name : String} {node : Node}
    (hmem : (name, node) ∈ entries) : node.LinkFree := by
  have hnode : (Node.directory entries).get? [name] = some node := by
    simp [Node.get?, (Assoc.find?_eq_some_iff hnodup).2 hmem]
  exact h.of_get? hnode

/-- If there are no links, or they are not followed, the events of an entry list what is in it. -/
theorem visitNode_lists {plan : Plan} {enter : Enter} {node : Node} (hwell : node.WellFormed)
    (hlinks : node.LinkFree ∨ plan.followLinks = false) (pos : Position) (name : String)
    (linked : Linked) :
    Lists node (pos.path ++ [name]) (visitNode plan enter pos name linked node).1 := by
  -- By induction on the tree; only a link that is followed would report what is not in it.
  induction hwell generalizing pos name linked with
  | file content =>
      rw [visitNode_file]
      by_cases hexcluded : plan.filter.isExcluded name false = true
      · simpa [hexcluded] using ⟨by simp, List.Pairwise.nil⟩
      · rw [if_neg hexcluded]
        refine ⟨?_, List.pairwise_singleton _ _⟩
        intro e he
        obtain rfl : e = .file (pos.path ++ [name]) content := by simpa using he
        exact ⟨[], by simp [Event.path], rfl⟩
  | link target =>
      rcases hlinks with hfree | hfollow
      · exact absurd rfl (hfree [] target)
      · have hnone : visitNode plan enter pos name linked (.link target) = ([], linked) := by
          rw [visitNode_link, visitLink_passed (passage_of_not_follows hfollow)]
        rw [hnone]
        exact ⟨by simp, List.Pairwise.nil⟩
  | @directory entries nodup plain short below ih =>
      rw [visitNode_directory]
      by_cases hexcluded : plan.filter.isExcluded name true = true
      · simpa [hexcluded] using ⟨by simp, List.Pairwise.nil⟩
      · rw [if_neg hexcluded]
        have hentries : Lists (.directory entries) (pos.path ++ [name])
              (visitEntries plan enter (pos.child name) linked entries).1 ∧
            ∀ e ∈ (visitEntries plan enter (pos.child name) linked entries).1,
              e.path ≠ pos.path ++ [name] :=
          visitEntries_lists nodup fun n x l hmem =>
            ih n x hmem (hlinks.imp_left fun h => linkFree_of_mem nodup h hmem) (pos.child name) n l
        -- The directory comes first, under a path that none of its entries has.
        refine ⟨?_, List.pairwise_cons.2 ⟨?_, hentries.1.distinct⟩⟩
        · intro e he
          rcases List.mem_cons.1 he with rfl | he
          · exact ⟨[], by simp [Event.path], rfl⟩
          · exact hentries.1.reports e he
        · intro e he heq
          exact hentries.2 e he heq.symm

/--
If there are no links, or they are not followed, the events below a directory list what is in it,
without the directory itself.
-/
theorem enter_lists {plan : Plan} {entries : List (String × Node)}
    (hwell : (Node.directory entries).WellFormed)
    (hlinks : (Node.directory entries).LinkFree ∨ plan.followLinks = false) (links : Nat)
    (pos : Position) (linked : Linked) :
    Lists (.directory entries) pos.path (enter plan links pos entries linked).1 ∧
      ∀ e ∈ (enter plan links pos entries linked).1, e.path ≠ pos.path := by
  cases hwell with
  | directory nodup _ _ below =>
      have each : ∀ enter name node linked, (name, node) ∈ entries →
          Lists node (pos.path ++ [name]) (visitNode plan enter pos name linked node).1 :=
        fun enter name node linked hmem => visitNode_lists (below name node hmem)
          (hlinks.imp_left fun h => linkFree_of_mem nodup h hmem) pos name linked
      cases links with
      | zero => exact visitEntries_lists nodup (each _)
      | succ links => exact visitEntries_lists nodup (each _)

end Walk
end ProjectConsistency
