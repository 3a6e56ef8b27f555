import ProjectConsistency.Proofs.FileSystem.Joined
import ProjectConsistency.Proofs.FileSystem.Written
import ProjectConsistency.Proofs.Walk.Places
import ProjectConsistency.Proofs.Walk.Pruned

/-!
# Spliced — the walk of a root in which a file was written

A file that is written in the root of a walk is one entry among the others.  This file defines:

* `Walk.Plan.SameLinks` — the links below a root lead to the same in another plan;
* `Walk.Plan.Alike` — two plans walk everything that they have in common alike;
* `Walk.fileEvents` — what is reported of a file of the root;
* `Walk.Around` — events come before and after all that an entry of the root could report.

Alike plans report the same of an entry that both have (`visitNode_of_alike`), however many links
are left.  A link into the root is passed over (`passage_of_leadsInside`).  So if no link leads to the
file that was written, or to what is above it outside the root, a second walk reports what the first
one did, but for the file itself (`walk_written`).
-/

namespace ProjectConsistency

open scoped List

/-! ## Setting an entry -/

namespace Assoc

variable {α : Type}

theorem erase_of_not_mem {key : String} {entries : List (String × α)} (h : key ∉ keys entries) :
    erase key entries = entries := by
  refine List.filter_eq_self.2 ?_
  rintro ⟨k, x⟩ hmem
  have hne : k ≠ key := by
    rintro rfl
    exact h (List.mem_map.2 ⟨_, hmem, rfl⟩)
  simpa using hne

/-- Setting an entry adds it to the others. -/
theorem perm_put {entries : List (String × α)} (hnodup : (keys entries).Nodup) (key : String)
    (x : α) : (put key x entries).Perm ((key, x) :: erase key entries) := by
  induction entries with
  | nil => exact .refl _
  | cons entry rest ih =>
      obtain ⟨k, y⟩ := entry
      obtain ⟨hnew, hrest⟩ := List.nodup_cons.1 hnodup
      by_cases hk : k = key
      · subst hk
        have herase : erase k ((k, y) :: rest) = rest := by
          simpa [erase] using erase_of_not_mem hnew
        rw [put, if_pos rfl, herase]
      · have herase : erase key ((k, y) :: rest) = (k, y) :: erase key rest := by
          simp [erase, hk]
        rw [put, if_neg hk, herase]
        exact ((ih hrest).cons _).trans (.swap _ _ _)

/-- An entry that is found is there beside the others. -/
theorem perm_find? {entries : List (String × α)} (hnodup : (keys entries).Nodup) (key : String) :
    entries.Perm (((find? key entries).map (key, ·)).toList ++ erase key entries) := by
  induction entries with
  | nil => exact .refl _
  | cons entry rest ih =>
      obtain ⟨k, y⟩ := entry
      obtain ⟨hnew, hrest⟩ := List.nodup_cons.1 hnodup
      by_cases hk : k = key
      · subst hk
        have herase : erase k ((k, y) :: rest) = rest := by
          simpa [erase] using erase_of_not_mem hnew
        simp [find?, herase]
      · have herase : erase key ((k, y) :: rest) = (k, y) :: erase key rest := by
          simp [erase, hk]
        rw [herase]
        simpa [find?, hk] using ((ih hrest).cons _).trans List.perm_middle.symm

end Assoc

namespace Node

/-- In order, an entry that is set stands between the entries with smaller and with greater names. -/
theorem sortedEntries_put {entries : List (String × Node)} (hnodup : (Assoc.keys entries).Nodup)
    (name : String) (node : Node)
    (hplain : ∀ n ∈ Assoc.keys (Assoc.put name node entries), PlainName n) :
    ∃ before after,
      (sortedEntries (Assoc.put name node entries)).mergeSort inOrder
          = before ++ (name, node.sorted) :: after ∧
        (sortedEntries entries).mergeSort inOrder
          = before ++ ((Assoc.find? name entries).map fun old => (name, old.sorted)).toList ++ after ∧
        (∀ entry ∈ before, entry.1 < name) ∧ ∀ entry ∈ after, name < entry.1 := by
  let sortedEntry : String × Node → String × Node := fun entry => (entry.1, entry.2.sorted)
  have hall : ((sortedEntries (Assoc.put name node entries)).mergeSort inOrder).Perm
      ((name, node.sorted) :: (Assoc.erase name entries).map sortedEntry) := by
    refine (List.mergeSort_perm _ _).trans ?_
    rw [sortedEntries_eq_map]
    exact (Assoc.perm_put hnodup name node).map sortedEntry
  have hascending : ((sortedEntries (Assoc.put name node entries)).mergeSort inOrder).Pairwise
      fun a b => a.1 < b.1 :=
    ascending_sortedEntries (Assoc.nodup_keys_put hnodup) hplain
  obtain ⟨before, after, hsplit⟩ := List.append_of_mem (hall.mem_iff.2 List.mem_cons_self)
  rw [hsplit] at hall hascending
  obtain ⟨hbefore, hcons, hbetween⟩ := List.pairwise_append.1 hascending
  obtain ⟨hgreater, hafter⟩ := List.pairwise_cons.1 hcons
  have hsmaller : ∀ entry ∈ before, entry.1 < name :=
    fun entry hentry => hbetween entry hentry _ List.mem_cons_self
  refine ⟨before, after, hsplit, ?_, hsmaller, hgreater⟩
  -- The two lists hold the same entries, both in ascending order.
  let found := ((Assoc.find? name entries).map fun old => (name, old.sorted)).toList
  have hfound : ∀ entry ∈ found, entry.1 = name := by
    intro entry hentry
    rcases Option.map_eq_some_iff.1 (Option.mem_toList.1 hentry) with ⟨old, _, rfl⟩
    rfl
  have hothers : (before ++ after).Perm ((Assoc.erase name entries).map sortedEntry) :=
    (List.perm_middle.symm.trans hall).cons_inv
  have hold : found = ((Assoc.find? name entries).map (name, ·)).toList.map sortedEntry := by
    cases hfind : Assoc.find? name entries <;> simp [found, hfind, sortedEntry]
  have hperm : ((sortedEntries entries).mergeSort inOrder).Perm (before ++ found ++ after) := by
    calc (sortedEntries entries).mergeSort inOrder
        ~ entries.map sortedEntry := by
          rw [← sortedEntries_eq_map]
          exact List.mergeSort_perm _ _
      _ ~ found ++ (Assoc.erase name entries).map sortedEntry := by
          rw [hold, ← List.map_append]
          exact (Assoc.perm_find? hnodup name).map sortedEntry
      _ ~ found ++ (before ++ after) := hothers.symm.append_left found
      _ ~ before ++ found ++ after := by
          rw [← List.append_assoc]
          exact List.perm_append_comm.append_right after
  have hfewer : ∀ n ∈ Assoc.keys entries, PlainName n := by
    intro n hn
    refine hplain n ?_
    rw [Assoc.keys_put]
    split
    · exact hn
    · exact List.mem_append_left _ hn
  refine hperm.eq_of_pairwise ?_ (ascending_sortedEntries hnodup hfewer) ?_
  · intro a b _ _ hab hba
    exact absurd hba (String.lt_asymm hab)
  · have hmiddle : found.Pairwise fun a b => a.1 < b.1 := by
      cases hfind : Assoc.find? name entries <;> simp [found, hfind]
    refine List.pairwise_append.2 ⟨List.pairwise_append.2 ⟨hbefore, hmiddle, ?_⟩, hafter, ?_⟩
    · exact fun a ha b hb => hfound b hb ▸ hsmaller a ha
    · intro a ha b hb
      rcases List.mem_append.1 ha with ha | ha
      · exact hbetween a ha b (List.mem_cons_of_mem _ hb)
      · exact hfound a ha ▸ hgreater b hb

end Node

namespace Walk

open FileSystem

/-! ## Alike plans -/

/-- A path leads to a directory in the root, or to the root itself. -/
def Plan.LeadsInside (plan : Plan) (path : List String) : Prop :=
  ∃ place below, plan.follow path = .ok (.found place (.directory below)) ∧ plan.root <+: place

/-- A name of an entry that is not passed over if the entry is a directory. -/
def Plan.Enters (plan : Plan) (name : String) : Prop :=
  EntryName name ∧ plan.filter.isExcluded name true = false

/-- A link in a directory to which a path below the root leads, leads to the same in another plan,
or is passed over in both. -/
def Plan.SameLinks (plan plan' : Plan) : Prop :=
  ∀ path name at' entries target, (∀ n ∈ path, plan.Enters n) →
    plan.follow path = .ok (.found at' (.directory entries)) →
    Assoc.find? name entries = some (.link target) →
    plan'.follow (path ++ [name]) = plan.follow (path ++ [name]) ∨
      plan.LeadsInside (path ++ [name]) ∧ plan'.LeadsInside (path ++ [name])

/-- Two plans walk alike through everything that they have in common. -/
structure Plan.Alike (plan plan' : Plan) : Prop where
  wellFormed : plan.tree.WellFormed
  filter_eq : plan'.filter = plan.filter
  root_eq : plan'.root = plan.root
  follows_eq : plan'.followLinks = plan.followLinks
  links : plan.followLinks = true → plan.SameLinks plan'

/-- The path of a position leads to the directory where the position is. -/
structure Plan.Reaches (plan : Plan) (pos : Position) (entries : List (String × Node)) : Prop where
  names : ∀ n ∈ pos.path, plan.Enters n
  leads : plan.follow pos.path = .ok (.found pos.at' (.directory entries))

/-- A link into the root is passed over. -/
theorem passage_of_leadsInside {plan : Plan} {pos : Position} {name : String}
    (h : plan.LeadsInside (pos.path ++ [name])) (linked : Linked) :
    passage plan noFailure pos name linked = .passed [] := by
  obtain ⟨place, below, hleads, hinside⟩ := h
  cases hpassage : passage plan noFailure pos name linked with
  | into target entries =>
      have hentered := entered_of_passage hpassage
      cases hleads.symm.trans hentered.leads
      exact absurd hinside hentered.outside
  | passed events =>
      -- Nothing is reported of a link that leads to a directory but is not entered.
      cases passed_of_passage hpassage with
      | nothing => rfl
      | deadEnd reason _ hdead => simp [Plan.deadEnd?, examine_noFailure, hleads] at hdead
      | closed _ hopen => simp [noFailure] at hopen
      | file _ _ hfile _ => cases hleads.symm.trans hfile

/-- What is behind links is entered alike from all positions that a plan reaches. -/
def AlikeFrom (plan : Plan) (enter enter' : Enter) : Prop :=
  ∀ pos entries linked, plan.Reaches pos entries → enter' pos entries linked = enter pos entries linked

section

variable {plan plan' : Plan} {pos : Position} {entries : List (String × Node)} {name : String}
  {node : Node}

theorem Plan.Reaches.entryName (h : plan.Reaches pos entries) (hwell : plan.tree.WellFormed)
    (hmem : (name, node) ∈ entries) : EntryName name := by
  have hdirectory : plan.tree.get? pos.at' = some (.directory entries) :=
    (FileSystem.leads_of_follow h.leads).get?_of_found
  cases hwell.of_get? hdirectory with
  | directory _ plain short _ =>
      have hkey : name ∈ Assoc.keys entries := List.mem_map.2 ⟨_, hmem, rfl⟩
      exact (plain name hkey).entryName (short name hkey)

/-- The walk enters only names that the filter opens. -/
theorem Plan.Reaches.names_append (h : plan.Reaches pos entries) (hname : plan.Enters name) :
    ∀ n ∈ pos.path ++ [name], plan.Enters n := by
  intro n hn
  rcases List.mem_append.1 hn with hn | hn
  · exact h.names n hn
  · exact List.mem_singleton.1 hn ▸ hname

variable (halike : plan.Alike plan')

include halike

/-- Alike plans find that a link comes to the same. -/
theorem passage_of_alike (hreach : plan.Reaches pos entries) {target : String}
    (hmem : (name, .link target) ∈ entries) (linked : Linked) :
    passage plan' noFailure pos name linked = passage plan noFailure pos name linked := by
  cases hfollows : plan.followLinks with
  | false =>
      rw [passage_of_not_follows hfollows, passage_of_not_follows (halike.follows_eq.trans hfollows)]
  | true =>
      have hdirectory : plan.tree.get? pos.at' = some (.directory entries) :=
        (FileSystem.leads_of_follow hreach.leads).get?_of_found
      have hfind : Assoc.find? name entries = some (.link target) := by
        cases halike.wellFormed.of_get? hdirectory with
        | directory nodup _ _ _ => exact (Assoc.find?_eq_some_iff nodup).2 hmem
      rcases halike.links hfollows pos.path name pos.at' entries target hreach.names
        hreach.leads hfind with hsame | ⟨hinside, hinside'⟩
      · have hcovered : isCovered plan' = isCovered plan := by
          funext linked place
          rw [isCovered, isCovered, halike.root_eq]
        rw [passage, passage, examine_noFailure, examine_noFailure, halike.follows_eq, hsame,
          halike.filter_eq, hcovered]
      · rw [passage_of_leadsInside hinside, passage_of_leadsInside hinside']

/-- Alike plans report the same of an entry. -/
theorem visitNode_of_alike {enter enter' : Enter} (henter : AlikeFrom plan enter enter')
    (hreach : plan.Reaches pos entries) (hmem : (name, node) ∈ entries) (linked : Linked) :
    visitNode plan' enter' pos name linked node = visitNode plan enter pos name linked node := by
  have hname := hreach.entryName halike.wellFormed hmem
  have hdirectory : plan.tree.get? pos.at' = some (.directory entries) :=
    (FileSystem.leads_of_follow hreach.leads).get?_of_found
  have hwell : node.WellFormed := by
    cases halike.wellFormed.of_get? hdirectory with
    | directory _ _ _ below => exact below name node hmem
  clear hdirectory
  -- By induction on the node; a link is passed alike, or leads to a directory that is entered alike.
  induction hwell generalizing pos entries name linked with
  | file content => rw [visitNode_file, visitNode_file, halike.filter_eq]
  | link target =>
      have hpassage := passage_of_alike halike hreach hmem linked
      rw [visitNode_link, visitNode_link]
      cases hlink : passage plan noFailure pos name linked with
      | passed events => rw [visitLink_passed hlink, visitLink_passed (hpassage.trans hlink)]
      | into place below =>
          have hbelow : plan.Reaches (pos.linked name place) below :=
            ⟨hreach.names_append ⟨hname, (entered_of_passage hlink).kept⟩,
              (entered_of_passage hlink).leads⟩
          rw [visitLink_into hlink, visitLink_into (hpassage.trans hlink),
            henter _ _ (place :: linked) hbelow]
  | @directory below nodup plain short _ ih =>
      rw [visitNode_directory, visitNode_directory, halike.filter_eq]
      cases hexcluded : plan.filter.isExcluded name true with
      | true => rfl
      | false =>
          have hbelow : plan.Reaches (pos.child name) below :=
            ⟨hreach.names_append ⟨hname, hexcluded⟩,
              follow_entry halike.wellFormed hreach.leads hmem (by simp)⟩
          have hentries : visitEntries plan' enter' (pos.child name) linked below
              = visitEntries plan enter (pos.child name) linked below :=
            visitEntries_congr (fun n x l hx =>
              ih n x hx hbelow hx l (hbelow.entryName halike.wellFormed hx)) linked
          rw [hentries]

/-- Directories are entered alike, however many links are left. -/
theorem alikeFrom_enter (links : Nat) :
    AlikeFrom plan (Walk.enter plan links) (Walk.enter plan' links) := by
  induction links with
  | zero =>
      intro pos entries linked hreach
      have hnone : AlikeFrom plan (fun _ _ linked => ([], linked)) (fun _ _ linked => ([], linked)) :=
        fun _ _ _ _ => rfl
      exact visitEntries_congr
        (fun _ _ l hmem => visitNode_of_alike halike hnone hreach hmem l) linked
  | succ links ih =>
      intro pos entries linked hreach
      exact visitEntries_congr (fun _ _ l hmem => visitNode_of_alike halike ih hreach hmem l) linked

/-- Both plans visit the entries of a directory in turn, and enter alike what is behind links. -/
theorem exists_enter_alike (links : Nat) :
    ∃ inner inner', Descends inner ∧ AlikeFrom plan inner inner' ∧
      (∀ pos entries linked,
        Walk.enter plan links pos entries linked = visitEntries plan inner pos linked entries) ∧
      ∀ pos entries linked,
        Walk.enter plan' links pos entries linked = visitEntries plan' inner' pos linked entries := by
  cases links with
  | zero =>
      exact ⟨fun _ _ linked => ([], linked), fun _ _ linked => ([], linked),
        fun _ _ _ e he => by simp at he, fun _ _ _ _ => rfl, fun _ _ _ => rfl, fun _ _ _ => rfl⟩
  | succ links =>
      exact ⟨_, _, above_of_mem_enter plan links, alikeFrom_enter halike links, fun _ _ _ => rfl,
        fun _ _ _ => rfl⟩

end

/-- Where there are no links below the root, they all lead to the same. -/
theorem sameLinks_of_linkFree {fs : FileSystem} (hfs : fs.tree.WellFormed) {path : String}
    {root : Location} {project : Node} (hlocate : fs.locate true path = .ok (root, project))
    (hlinks : project.LinkFree) (filter : NameFilter) (followLinks : Bool) (plan' : Plan) :
    (Plan.ofRoot fs filter followLinks path root).SameLinks plan' := by
  have hway := (leads_namesOf hlocate).sorted hfs
  have hfree : project.sorted.LinkFree :=
    (hfs.of_get? (leads_of_locate hlocate).get?_of_found).linkFree_sorted hlinks
  intro below name at' entries target hnames hleads hfind
  rcases hway.of_append (leads_of_follow hleads) with ⟨left, _, hbelow⟩
  obtain rfl : at' = root ++ below := by
    refine hbelow.eq_append (fun n hn => ⟨(hnames n hn).1.ne_dot, (hnames n hn).1.ne_dots⟩) ?_
    intro above _ _ link hlink
    rw [Node.shapeAt_below hway.get?_of_found] at hlink
    rcases Option.map_eq_some_iff.1 hlink with ⟨node, hnode, hshape⟩
    cases node with
    | link found => exact hfree above found hnode
    | file _ => cases hshape
    | directory _ => cases hshape
  have hlink : project.sorted.get? (below ++ [name]) = some (.link target) := by
    have hentry := Node.find?_eq_get? hbelow.get?_of_found name
    rw [List.append_assoc, Node.get?_append, hway.get?_of_found, hfind] at hentry
    exact hentry.symm
  exact absurd hlink (hfree _ _)

/-! ## Walks -/

/-- What a walk reports of a file in its root. -/
def fileEvents (filter : NameFilter) (name : String) (content : ByteArray) : List Event :=
  if filter.isExcluded name false then [] else [.file [name] content]

/-- The events come from entries of the root with smaller names, or else with greater names. -/
structure Around (name : String) (before after : List Event) : Prop where
  before : ∀ e ∈ before, ∃ n rest, e.path = n :: rest ∧ n < name
  after : ∀ e ∈ after, ∃ n rest, e.path = n :: rest ∧ name < n

/-- Two stretches of entries are visited one after the other. -/
theorem visitEntries_append {plan : Plan} {enter : Enter} {pos : Position} (linked : Linked)
    (xs ys : List (String × Node)) :
    (visitEntries plan enter pos linked (xs ++ ys)).1
      = (visitEntries plan enter pos linked xs).1
        ++ (visitEntries plan enter pos (visitEntries plan enter pos linked xs).2 ys).1 := by
  induction xs generalizing linked with
  | nil => rfl
  | cons entry rest ih =>
      obtain ⟨name, node⟩ := entry
      rw [List.cons_append, visitEntries_cons, visitEntries_cons, ih, List.append_assoc]

/-- A file of the root changes nothing in what is reported of the entries after it. -/
theorem visitEntries_file {plan : Plan} {enter : Enter} {root : Location} {above : List Location}
    (linked : Linked) (name : String) (content : ByteArray) (rest : List (String × Node)) :
    (visitEntries plan enter ⟨root, [], above⟩ linked ((name, .file content) :: rest)).1
      = fileEvents plan.filter name content
        ++ (visitEntries plan enter ⟨root, [], above⟩ linked rest).1 := by
  rw [visitEntries_cons, visitNode_file, fileEvents]
  by_cases hexcluded : plan.filter.isExcluded name false = true
  · simp [hexcluded]
  · simp [hexcluded]

/-- What a visit yields lies below one of the entries. -/
theorem path_of_mem_visitEntries {plan : Plan} {enter : Enter} (henter : Descends enter)
    {root : Location} {above : List Location} {linked : Linked} {entries : List (String × Node)}
    {e : Event} (he : e ∈ (visitEntries plan enter ⟨root, [], above⟩ linked entries).1) :
    ∃ entry ∈ entries, ∃ rest, e.path = entry.1 :: rest := by
  rcases mem_visitEntries he with ⟨name, node, l, hmem, he⟩
  obtain ⟨rest, hrest⟩ := above_of_mem_visitNode henter node _ name l e he
  exact ⟨_, hmem, rest, hrest.symm⟩

/-- Alike plans report the same before and after a file of the root that only the second one has with
its content. -/
theorem enter_spliced {plan plan' : Plan} (halike : plan.Alike plan') {root : Location}
    {name : String} {before after : List (String × Node)} {old : Option ByteArray}
    (hreach : plan.Reaches ⟨root, [], []⟩
      (before ++ (old.map fun c => (name, Node.file c)).toList ++ after))
    (hsmaller : ∀ entry ∈ before, entry.1 < name) (hgreater : ∀ entry ∈ after, name < entry.1)
    (content : ByteArray) (links : Nat) :
    ∃ first last, Around name first last ∧
      (Walk.enter plan links ⟨root, [], []⟩
          (before ++ (old.map fun c => (name, Node.file c)).toList ++ after) []).1
        = first ++ old.elim [] (fileEvents plan.filter name) ++ last ∧
      (Walk.enter plan' links ⟨root, [], []⟩ (before ++ (name, .file content) :: after) []).1
        = first ++ fileEvents plan.filter name content ++ last := by
  obtain ⟨inner, inner', hdescends, hinner, henter, henter'⟩ := exists_enter_alike halike links
  -- Every other entry of the root is visited alike in both plans.
  have hvisit : ∀ part,
      part ⊆ before ++ (old.map fun c => (name, Node.file c)).toList ++ after → ∀ linked,
      visitEntries plan' inner' ⟨root, [], []⟩ linked part
        = visitEntries plan inner ⟨root, [], []⟩ linked part := fun part hpart linked =>
    visitEntries_congr (fun _ _ l hmem => visitNode_of_alike halike hinner hreach (hpart hmem) l)
      linked
  have hbefore := hvisit before (by simp) []
  have hafter := hvisit after (by simp)
  -- A file leaves the links gone through as they are, so what comes after it starts equally.
  generalize hlinked : (visitEntries plan inner ⟨root, [], []⟩ [] before).2 = linked
  refine ⟨(visitEntries plan inner ⟨root, [], []⟩ [] before).1,
    (visitEntries plan inner ⟨root, [], []⟩ linked after).1, ⟨?_, ?_⟩, ?_, ?_⟩
  · intro e he
    rcases path_of_mem_visitEntries hdescends he with ⟨entry, hentry, rest, hpath⟩
    exact ⟨_, rest, hpath, hsmaller entry hentry⟩
  · intro e he
    rcases path_of_mem_visitEntries hdescends he with ⟨entry, hentry, rest, hpath⟩
    exact ⟨_, rest, hpath, hgreater entry hentry⟩
  · rw [henter, List.append_assoc, visitEntries_append, hlinked, List.append_assoc]
    cases old with
    | none => rfl
    | some c => exact congrArg _ (visitEntries_file linked name c after)
  · rw [henter', visitEntries_append, hbefore, hlinked, visitEntries_file, hafter,
      List.append_assoc, halike.filter_eq]

/--
After a file was written in the root, and links lead to the same as before, a walk reports what it
did before, and the file with its new content.
-/
theorem walk_written {fs fs' : FileSystem} (hfs : fs.tree.WellFormed) {path : String}
    {root : Location} {entries : List (String × Node)}
    (hlocate : fs.locate true path = .ok (root, .directory entries)) {name : String}
    {old : Option ByteArray} {content : ByteArray} (hwritten : Written fs root name old content fs')
    (filter : NameFilter) (followLinks : Bool)
    (hlinks : followLinks = true →
      (Plan.ofRoot fs filter true path root).SameLinks (Plan.ofRoot fs' filter true path root)) :
    ∃ before after, Around name before after ∧
      walk fs filter followLinks path
        = before ++ old.elim [] (fileEvents filter name) ++ after ∧
      walk fs' filter followLinks path = before ++ fileEvents filter name content ++ after := by
  have hroot : fs.tree.get? root = some (.directory entries) :=
    (leads_of_locate hlocate).get?_of_found
  obtain ⟨entries', hlocate'⟩ := hwritten.locate_directory hlocate
  obtain rfl : entries' = Assoc.put name (.file content) entries := by
    have hroot' := (leads_of_locate hlocate').get?_of_found
    simpa using hroot'.symm.trans (hwritten.get?_directory hroot)
  have hnodup : (Assoc.keys entries).Nodup := by
    cases hfs.of_get? hroot with
    | directory nodup _ _ _ => exact nodup
  -- The two plans differ in the written file only.
  have halike : (Plan.ofRoot fs filter followLinks path root).Alike
      (Plan.ofRoot fs' filter followLinks path root) := by
    refine ⟨hfs.sorted, rfl, rfl, rfl, ?_⟩
    intro hfollows
    obtain rfl : followLinks = true := hfollows
    exact hlinks rfl
  have hplain : ∀ n ∈ Assoc.keys (Assoc.put name (.file content) entries), PlainName n := by
    have hroot' := (leads_of_locate hlocate').get?_of_found
    cases (hwritten.wellFormed hfs).of_get? hroot' with
    | directory _ plain _ _ => exact plain
  -- In the sorted listing of the root the file stands between smaller and greater names.
  obtain ⟨before, after, hsorted', hsorted, hsmaller, hgreater⟩ :=
    Node.sortedEntries_put hnodup name (.file content) hplain
  have hfound : ((Assoc.find? name entries).map fun old => (name, old.sorted))
      = old.map fun c => (name, Node.file c) := by
    rw [(Node.find?_eq_get? hroot name).trans hwritten.old_eq, Option.map_map]
    rfl
  rw [hfound] at hsorted
  -- Both walks are one visit of the root, with the file spliced in.
  have hreach : (Plan.ofRoot fs filter followLinks path root).Reaches ⟨root, [], []⟩
      (before ++ (old.map fun c => (name, Node.file c)).toList ++ after) := by
    rw [← hsorted]
    exact ⟨by simp, follow_ofRoot hfs hlocate⟩
  obtain ⟨first, last, haround, hevents, hevents'⟩ := enter_spliced halike hreach hsmaller hgreater
    content fs.tree.sorted.directoryCount
  refine ⟨first, last, haround, ?_, ?_⟩
  · rw [walk_of_locate hlocate, Plan.run, entries_ofRoot hfs hlocate]
    change (Walk.enter _ fs.tree.sorted.directoryCount _
      ((Node.sortedEntries entries).mergeSort Node.inOrder) _).1 = _
    rw [hsorted]
    exact hevents
  · rw [walk_of_locate hlocate', Plan.run, entries_ofRoot (hwritten.wellFormed hfs) hlocate']
    change (Walk.enter _ fs'.tree.sorted.directoryCount _
      ((Node.sortedEntries (Assoc.put name (.file content) entries)).mergeSort Node.inOrder) _).1 = _
    rw [hsorted', hwritten.directoryCount_sorted hfs]
    exact hevents'

end Walk
end ProjectConsistency
