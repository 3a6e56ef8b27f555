import Mathlib.Data.List.Pairwise
import ProjectConsistency.Proofs.Walk.Inventory
import ProjectConsistency.Rules.Structure

/-!
# Coherent — the parts of a snapshot agree

A snapshot is filled from the events of one walk.  This file defines:

* `FileSystem.contentBelow?` — the content of the file to which a path leads;
* `Snapshot.Coherent` — the collections of a snapshot belong together.

Whatever the links are, events are spread below the root and report what their paths lead to; that is
all that the collections need (`coherent_describe`).  So every snapshot of a well-formed tree is
coherent, and an issue about entries that are too deep can name one (`analyze_coherent`).
-/

namespace ProjectConsistency

open FileSystem Walk Walk.Event

/-- The content of the file to which a path leads from a directory. -/
def FileSystem.contentBelow? (tree : Node) (root : Location) (path : String) : Option ByteArray :=
  match follow tree true linkLimit root (namesOf path) with
  | .ok (.found _ (.file content)) => some content
  | _ => none

/-- The collections of the snapshot of a root belong together. -/
structure Snapshot.Coherent (s : Snapshot) (tree : Node) (root : Location) (rules : StyleRules) :
    Prop where
  nodup_directories : s.directories.Nodup
  nodup_files : s.files.Nodup
  disjoint : s.directories.Disjoint s.files
  above : ∀ entry ∈ s.directories ++ s.files, ∀ above below,
    entry = above ++ "/" ++ below → above ∈ s.directories
  maxDepth_eq : s.maxDepth = ((s.directories ++ s.files).map depthOf).max?.getD 0
  readable : ∀ file ∈ s.files, (contentBelow? tree root file).isSome
  /-- Sizes are 64-bit numbers, and so is their sum, which wraps around: below `2 ^ 64` bytes it is the
  sum itself. -/
  totalSize_eq : s.totalSize.toNat
    = (s.files.map fun file => (contentBelow? tree root file).elim 0 ByteArray.size).sum % 2 ^ 64
  byType : Grouped (fun file => some (FileType.ofPath file)) s.files s.filesByType
  byExtension : Grouped extensionOf? s.files s.filesByExtension
  sources : ∀ file text, (file, text) ∈ s.sources ↔ file ∈ s.files ∧ ∃ content ext,
    contentBelow? tree root file = some content ∧ content.size ≤ Analysis.sourceLimit ∧
      ext ∈ rules.extensions ∧
      extensionOf? file = some (String.ofList (Text.lowerAscii ext.toList)) ∧
      text = Text.decodeLossy content

/-! ## Greatest depths -/

theorem foldl_max_eq (xs : List Nat) : xs.foldl max 0 = xs.max?.getD 0 := by
  cases xs with
  | nil => rfl
  | cons x rest =>
      rw [List.foldl_cons, Nat.zero_max]
      rfl

theorem foldl_max_le_iff (xs : List Nat) (start bound : Nat) :
    xs.foldl max start ≤ bound ↔ start ≤ bound ∧ ∀ x ∈ xs, x ≤ bound := by
  induction xs generalizing start with
  | nil => simp
  | cons x rest ih =>
      rw [List.foldl_cons, ih, List.forall_mem_cons, max_le_iff, and_assoc]

namespace Analysis

/-! ## What the events list -/

section

variable {events : List Event}

/-- The listed paths are those of the entries that the walk yields. -/
theorem mem_listed_iff {text : String} :
    text ∈ events.filterMap directory? ++ (events.filterMap file?).map Prod.fst ↔
      ∃ e ∈ events, (e.shape?).isSome ∧ text = pathText e.path := by
  constructor
  · intro h
    rcases List.mem_append.1 h with h | h
    · rcases List.mem_filterMap.1 h with ⟨e, he, hsome⟩
      rcases eq_of_directory? hsome with ⟨p, rfl, rfl⟩
      exact ⟨_, he, rfl, rfl⟩
    · rcases List.mem_map.1 h with ⟨entry, hentry, rfl⟩
      rcases List.mem_filterMap.1 hentry with ⟨e, he, hsome⟩
      rcases eq_of_file? hsome with ⟨p, rfl, htext⟩
      exact ⟨_, he, rfl, htext⟩
  · rintro ⟨e, he, hshape, rfl⟩
    cases e with
    | directory path => exact List.mem_append_left _ (List.mem_filterMap.2 ⟨_, he, rfl⟩)
    | file path content =>
        exact List.mem_append_right _
          (List.mem_map.2 ⟨_, List.mem_filterMap.2 ⟨_, he, rfl⟩, rfl⟩)
    | unreadable _ _ => cases hshape
    | cancelled => cases hshape

/-- The text of a reported path shows its depth. -/
theorem depthOf_pathText {e : Event} (hproper : e.Proper) (hshape : (e.shape?).isSome) :
    depthOf (pathText e.path) = e.depth :=
  (count_slash_pathText (hproper.ne_nil hshape) hproper.plain).trans (depth_of_isEntry hshape).symm

/-- The greatest depth of an event is that of a listed path. -/
theorem depth_listed (hproper : ∀ e ∈ events, e.Proper) :
    (events.map Event.depth).foldl max 0
      = ((events.filterMap directory? ++ (events.filterMap file?).map Prod.fst).map
          depthOf).max?.getD 0 := by
  rw [← foldl_max_eq]
  refine eq_of_forall_ge_iff fun bound => ?_
  rw [foldl_max_le_iff, foldl_max_le_iff, List.forall_mem_map, List.forall_mem_map]
  have hdepth : ∀ e ∈ events, (e.shape?).isSome → depthOf (pathText e.path) = e.depth :=
    fun e he => depthOf_pathText (hproper e he)
  refine and_congr_right fun _ => ⟨?_, ?_⟩
  · intro h text htext
    rcases mem_listed_iff.1 htext with ⟨e, he, hshape, rfl⟩
    rw [hdepth e he hshape]
    exact h e he
  · intro h e he
    cases e with
    | directory path =>
        have hentry := h _ (mem_listed_iff.2 ⟨_, he, rfl, rfl⟩)
        rwa [hdepth _ he rfl] at hentry
    | file path content =>
        have hentry := h _ (mem_listed_iff.2 ⟨_, he, rfl, rfl⟩)
        rwa [hdepth _ he rfl] at hentry
    | unreadable _ _ => exact Nat.zero_le bound
    | cancelled => exact Nat.zero_le bound

/-- A path is reported once, as a directory or as a file. -/
theorem disjoint_listed (hproper : ∀ e ∈ events, e.Proper)
    (hdistinct : events.Pairwise fun a b => a.path ≠ b.path) :
    (events.filterMap directory?).Disjoint ((events.filterMap file?).map Prod.fst) := by
  intro text hdirectory hfile
  rcases List.mem_filterMap.1 hdirectory with ⟨d, hd, hsome⟩
  rcases eq_of_directory? hsome with ⟨p, rfl, rfl⟩
  rcases List.mem_map.1 hfile with ⟨entry, hentry, htext⟩
  rcases List.mem_filterMap.1 hentry with ⟨f, hf, hsome⟩
  rcases eq_of_file? hsome with ⟨p', rfl, htext'⟩
  have hsame : p = p' := pathText_injective ((hproper _ hd).ne_nil rfl) ((hproper _ hf).ne_nil rfl)
    (hproper _ hd).plain (hproper _ hf).plain (htext.symm.trans htext')
  have hsymm : Std.Symm fun a b : Event => a.path ≠ b.path := ⟨fun _ _ h => h.symm⟩
  exact hdistinct.forall hd hf (by simp) hsame

/-- The directories above a listed path are listed. -/
theorem above_listed (hproper : ∀ e ∈ events, e.Proper) (hspread : Spread [] events)
    {entry above below : String}
    (hentry : entry ∈ events.filterMap directory? ++ (events.filterMap file?).map Prod.fst)
    (heq : entry = above ++ "/" ++ below) : above ∈ events.filterMap directory? := by
  rcases mem_listed_iff.1 hentry with ⟨e, he, hshape, rfl⟩
  rcases eq_append_of_pathText ((hproper e he).ne_nil hshape) (hproper e he).plain heq with
    ⟨front, back, hpath, hfront, hback, rfl⟩
  have hproperly : front ≠ e.path := by simpa [hpath] using hback
  have hreported := hspread.preceded e he front List.nil_prefix hfront
    (hpath ▸ List.prefix_append _ _) hproperly
  exact List.mem_filterMap.2 ⟨_, hreported, rfl⟩

end

/-! ## Coherent snapshots -/

/-- The texts kept are those of small files with a listed extension, decoded. -/
theorem mem_sources_iff {rules : StyleRules} {files : Files} {file text : String} :
    (file, text) ∈ sources rules files ↔ ∃ content, (file, content) ∈ files ∧
      content.size ≤ sourceLimit ∧ (∃ ext ∈ rules.extensions,
        extensionOf? file = some (String.ofList (Text.lowerAscii ext.toList))) ∧
      text = Text.decodeLossy content := by
  have hsource : isSource rules file = true ↔ ∃ ext ∈ rules.extensions,
      extensionOf? file = some (String.ofList (Text.lowerAscii ext.toList)) := by
    cases hext : extensionOf? file with
    | none => simp [isSource, hext]
    | some found =>
        simp only [isSource, hext, Option.any_some, List.any_eq_true, decide_eq_true_eq,
          Option.some.injEq]
        exact exists_congr fun e => and_congr_right fun _ => eq_comm
  constructor
  · intro h
    rcases List.mem_filterMap.1 h with ⟨⟨path, content⟩, hmem, hsome⟩
    rcases Option.map_eq_some_iff.1 hsome with ⟨found, hfound, heq⟩
    cases heq
    by_cases hread : (isSource rules file && decide (content.size ≤ sourceLimit)) = true
    · obtain ⟨hstyle, hsize⟩ := Bool.and_eq_true_iff.1 hread
      rw [source?, if_pos hread] at hfound
      exact ⟨content, hmem, of_decide_eq_true hsize, hsource.1 hstyle,
        (Option.some.inj hfound).symm⟩
    · rw [source?, if_neg hread] at hfound
      cases hfound
  · rintro ⟨content, hmem, hsize, hstyle, rfl⟩
    refine List.mem_filterMap.2 ⟨(file, content), hmem, ?_⟩
    simp [source?, hsource.2 hstyle, hsize]

/-- Sizes are added up to the multiples of the greatest 64-bit number and one. -/
theorem toNat_sizeOf (files : Files) :
    (sizeOf files).toNat = (files.map fun entry => entry.2.size).sum % 2 ^ 64 := by
  have hfrom : ∀ start : UInt64,
      (files.foldl (fun n entry => n + entry.2.size.toUInt64) start).toNat
        = (start.toNat + (files.map fun entry => entry.2.size).sum) % 2 ^ 64 := by
    induction files with
    | nil =>
        intro start
        simp [Nat.mod_eq_of_lt start.toNat_lt]
    | cons entry rest ih =>
        intro start
        have hone : (start + entry.2.size.toUInt64).toNat
            = (start.toNat + entry.2.size) % 2 ^ 64 := by simp [UInt64.toNat_add]
        rw [List.foldl_cons, ih, hone, Nat.mod_add_mod, List.map_cons, List.sum_cons, Nat.add_assoc]
  simpa [sizeOf] using hfrom 0

/-- The snapshot of spread events is coherent if the files they report are where their paths lead. -/
theorem coherent_describe {tree : Node} {root : Location} {events : List Event}
    (hproper : ∀ e ∈ events, e.Proper) (hspread : Spread [] events)
    (hfound : ∀ entry ∈ events.filterMap file?,
      contentBelow? tree root entry.1 = some entry.2) (standards : Standards) (text : String) :
    (describe standards text events).Coherent tree root standards.style := by
  obtain ⟨hdirectories, hfiles⟩ := nodup_listed hproper hspread.distinct
  -- Every listed file was read where its path leads to.
  have hcontent : ∀ file ∈ (events.filterMap file?).map Prod.fst,
      ∃ content, (file, content) ∈ events.filterMap file? ∧
        contentBelow? tree root file = some content := by
    intro file hfile
    rcases List.mem_map.1 hfile with ⟨entry, hentry, rfl⟩
    exact ⟨entry.2, hentry, hfound entry hentry⟩
  refine ⟨hdirectories, hfiles, disjoint_listed hproper hspread.distinct,
    fun entry hentry above below => above_listed hproper hspread hentry, depth_listed hproper, ?_, ?_,
    grouped_groupsOf _ _, grouped_groupsOf _ _, ?_⟩
  · intro file hfile
    rcases hcontent file hfile with ⟨content, _, hread⟩
    simp [hread]
  · have hsizes : ((events.filterMap file?).map fun entry => entry.2.size)
        = ((events.filterMap file?).map Prod.fst).map fun file =>
            (contentBelow? tree root file).elim 0 ByteArray.size := by
      rw [List.map_map]
      refine List.map_congr_left fun entry hentry => ?_
      simp [hfound entry hentry]
    exact (toNat_sizeOf _).trans (congrArg (fun sizes => sizes.sum % 2 ^ 64) hsizes)
  · intro file source
    refine mem_sources_iff.trans ⟨?_, ?_⟩
    · rintro ⟨content, hmem, hsize, ⟨ext, hext, hpath⟩, htext⟩
      have hread := hfound (file, content) hmem
      exact ⟨List.mem_map.2 ⟨_, hmem, rfl⟩, content, ext, hread, hsize, hext, hpath, htext⟩
    · rintro ⟨hfile, content, ext, hread, hsize, hext, hpath, htext⟩
      rcases hcontent file hfile with ⟨found, hmem, hread'⟩
      -- Paths are listed once, so the content is that of the very entry.
      obtain rfl : found = content := Option.some.inj (hread'.symm.trans hread)
      exact ⟨found, hmem, hsize, ⟨ext, hext, hpath⟩, htext⟩

end Analysis

/-- An issue about entries that are too deep names a listed entry at the greatest depth. -/
theorem Snapshot.Coherent.target_tooDeep {s : Snapshot} {tree : Node} {root : Location}
    {style : StyleRules} (h : s.Coherent tree root style) (rules : StructureRules) {issue : Issue}
    (hissue : issue ∈ Rules.Structure.tooDeep rules s) :
    ∃ entry ∈ s.directories ++ s.files, issue.target = some entry ∧ depthOf entry = s.maxDepth := by
  by_cases hdeep : rules.maxDepth < s.maxDepth
  · have htarget : issue.target = Rules.Structure.deepest? s := by
      simp only [Rules.Structure.tooDeep, if_pos hdeep, List.mem_singleton] at hissue
      rw [hissue]
    -- The greatest depth is not 0, so there is an entry that has it.
    have hattained : ∃ entry ∈ s.directories ++ s.files, depthOf entry = s.maxDepth := by
      cases hmax : ((s.directories ++ s.files).map depthOf).max? with
      | none =>
          have hzero : s.maxDepth = 0 := by rw [h.maxDepth_eq, hmax, Option.getD_none]
          rw [hzero] at hdeep
          exact absurd hdeep (Nat.not_lt_zero _)
      | some depth =>
          have heq : s.maxDepth = depth := by rw [h.maxDepth_eq, hmax, Option.getD_some]
          rcases List.mem_map.1 (List.max?_mem hmax) with ⟨entry, hmem, hdepth⟩
          exact ⟨entry, hmem, hdepth.trans heq.symm⟩
    obtain ⟨entry, hmem, hdepth⟩ := hattained
    cases hfind : Rules.Structure.deepest? s with
    | none =>
        have hnone := List.find?_eq_none.1 hfind entry hmem
        simp [hdepth] at hnone
    | some found =>
        have hfirst : (s.directories ++ s.files).find? (fun path => depthOf path = s.maxDepth)
            = some found := hfind
        exact ⟨found, List.mem_of_find?_eq_some hfirst, htarget.trans hfind,
          by simpa using List.find?_some hfirst⟩
  · simp [Rules.Structure.tooDeep, hdeep] at hissue

namespace Analysis

end Analysis
end ProjectConsistency
