import ProjectConsistency.Proofs.Rules.Families
import ProjectConsistency.Proofs.Rules.Inspected
import ProjectConsistency.Proofs.Walk.Inserted

/-!
# Noticed — what the rules make of one more file

A file that comes to the root of a project, or gets another content there, may raise issues and settle
others.  This file defines:

* `Rules.Style.fileIssues` — what the style rules find in a file;
* `Rules.Unnoticed` — a file raises no issue that it did not raise before, and settles none.

The issues of a snapshot are the same as those of another one if each family finds the same
(`evaluate_eq_iff`), since each issue tells its family.  One lemma for each family says when it does
(`Rules.Structure.check_withFile_iff` and its siblings), so all issues are the same just if the file is
not noticed (`evaluate_withFile_iff`).
-/

namespace ProjectConsistency

open Walk Walk.Event Analysis

namespace Rules

/-! ## What each family finds -/

section

variable {standards : Standards} {root name : String} {old : Option ByteArray} {new : ByteArray}
  {before after : List Event}

theorem files_withFile (hname : PlainName name) (content : Option ByteArray) :
    (describe standards root (withFile name content before after)).files
      = (before.filterMap Event.file?).map Prod.fst ++ (content.map fun _ => name).toList
        ++ (after.filterMap Event.file?).map Prod.fst := by
  show ((withFile name content before after).filterMap Event.file?).map Prod.fst = _
  rw [file?_withFile hname, List.map_append, List.map_append]
  cases content <;> rfl

theorem directories_withFile (content : Option ByteArray) :
    (describe standards root (withFile name content before after)).directories
      = before.filterMap Event.directory? ++ after.filterMap Event.directory? :=
  directory?_withFile content

/-! ### Names -/

theorem Naming.check_withFile (standards : Standards) (root : String) (before after : List Event)
    (hname : PlainName name) : ∃ first last, ∀ content,
    check (describe standards root (withFile name content before after)) standards
      = first ++ content.elim [] (fun _ => ((fileName standards.naming name).map
          (violation "File" name standards.naming.fileCasing)).toList) ++ last := by
  have hlast : (splitParent name).2 = name := by
    rw [splitParent, Text.splitLast_of_not_mem hname.no_slash]
  -- What is found in the other files, before and after the one that is checked.
  let issues : List String → List Issue := List.filterMap fun path =>
    (fileName standards.naming (splitParent path).2).map
      (violation "File" path standards.naming.fileCasing)
  refine ⟨directoryIssues standards.naming (describe standards root (withFile name none before after))
      ++ issues ((before.filterMap Event.file?).map Prod.fst),
    issues ((after.filterMap Event.file?).map Prod.fst), ?_⟩
  intro content
  rw [check, directoryIssues, directoryIssues, directories_withFile, directories_withFile, fileIssues,
    files_withFile hname, List.filterMap_append, List.filterMap_append]
  cases content with
  | none => simp [issues]
  | some c => cases hfile : fileName standards.naming name <;> simp [issues, hlast, hfile]

theorem Naming.check_withFile_iff (hname : PlainName name) :
    check (describe standards root (withFile name (some new) before after)) standards
        = check (describe standards root (withFile name old before after)) standards
      ↔ (old = none → fileName standards.naming name = none) := by
  obtain ⟨first, last, hcheck⟩ := check_withFile standards root before after hname
  rw [hcheck, hcheck, List.append_left_inj, List.append_right_inj]
  cases old with
  | none => cases hfile : fileName standards.naming name <;> simp
  | some c => simp

/-! ### Styles -/

def Style.fileIssues (rules : StyleRules) (path : String) (content : ByteArray) : List Issue :=
  ((extensionOf? path).filter fun ext => rules.extensions.contains ext).elim [] fun ext =>
    (source? rules path content).elim [] fun text => checkSource rules path ext text.toList

theorem Style.check_describe {events : List Event}
    (hnodup : ((events.filterMap Event.file?).map Prod.fst).Nodup) :
    check (describe standards root events) standards
      = (events.filterMap Event.file?).flatMap fun file =>
          fileIssues standards.style file.1 file.2 := by
  -- A file is inspected if its source was captured, and each path stands for one content.
  let s := describe standards root events
  have hfile : ∀ file ∈ events.filterMap Event.file?,
      ((inspect? standards.style s file.1).map ((file.1, ·))).toList.flatMap
          (fun found => checkSource standards.style found.1 found.2.1 found.2.2.toList)
        = fileIssues standards.style file.1 file.2 := by
    intro file hfile
    have hsource : Assoc.find? file.1 s.sources = source? standards.style file.1 file.2 :=
      Assoc.find?_filterMap (source? standards.style) hnodup hfile
    cases hext : extensionOf? file.1 with
    | none => simp [inspect?, fileIssues, hext]
    | some ext =>
        by_cases hlisted : ext ∈ standards.style.extensions
        · cases hread : source? standards.style file.1 file.2 <;>
            simp [inspect?, fileIssues, hext, hlisted, hsource, hread, Option.filter]
        · simp [inspect?, fileIssues, hext, hlisted, Option.filter]
  calc check s standards
      = ((events.filterMap Event.file?).filterMap fun file =>
          (inspect? standards.style s file.1).map ((file.1, ·))).flatMap
            fun found => checkSource standards.style found.1 found.2.1 found.2.2.toList := by
        have hfiles : s.files = (events.filterMap Event.file?).map Prod.fst := rfl
        rw [check, inspected, hfiles, List.filterMap_map]
        rfl
    _ = (events.filterMap Event.file?).flatMap fun file =>
          ((inspect? standards.style s file.1).map ((file.1, ·))).toList.flatMap
            fun found => checkSource standards.style found.1 found.2.1 found.2.2.toList := by
        rw [List.filterMap_eq_flatMap_toList, List.flatMap_assoc]
    _ = (events.filterMap Event.file?).flatMap fun file =>
          fileIssues standards.style file.1 file.2 := List.flatMap_congr hfile

theorem Style.check_withFile_iff (hname : PlainName name)
    (hnodup : (((withFile name old before after).filterMap Event.file?).map Prod.fst).Nodup)
    (hnodup' :
      (((withFile name (some new) before after).filterMap Event.file?).map Prod.fst).Nodup) :
    check (describe standards root (withFile name (some new) before after)) standards
        = check (describe standards root (withFile name old before after)) standards
      ↔ fileIssues standards.style name new
          = old.elim [] (fileIssues standards.style name) := by
  rw [check_describe hnodup, check_describe hnodup', file?_withFile hname, file?_withFile hname,
    List.flatMap_append, List.flatMap_append, List.flatMap_append, List.flatMap_append,
    List.append_left_inj, List.append_right_inj]
  cases old <;> simp

/-! ### Configuration files -/

theorem Configuration.check_describe (events : List Event) :
    check (describe standards root events) standards
      = standards.config.perFile.flatMap fun entry =>
          (Assoc.find? entry.1 (events.filterMap Event.file?)).elim []
            fun content => checkFile entry.1 entry.2 (configFile content) := by
  refine List.flatMap_congr ?_
  rintro ⟨file, rule⟩ hentry
  have hkey : file ∈ Assoc.keys standards.config.perFile := List.mem_map.2 ⟨_, hentry, rfl⟩
  have hfind : Assoc.find? file (describe standards root events).configFiles
      = (Assoc.find? file (events.filterMap Event.file?)).map configFile := by
    show Assoc.find? file (configFiles standards.config (events.filterMap Event.file?)) = _
    rw [find?_configFiles, if_pos hkey]
  dsimp only
  rw [hfind]
  cases Assoc.find? file (events.filterMap Event.file?) <;> rfl

/-- Where only the entry under one key differs, so do the lists that are made of all entries. -/
theorem flatMap_eq_iff {α β : Type} {f g : String × α → List β} {entries : List (String × α)}
    (hnodup : (Assoc.keys entries).Nodup) {key : String}
    (hothers : ∀ entry ∈ entries, entry.1 ≠ key → f entry = g entry) :
    entries.flatMap f = entries.flatMap g ↔
      ∀ x, Assoc.find? key entries = some x → f (key, x) = g (key, x) := by
  induction entries with
  | nil => simp [Assoc.find?]
  | cons entry rest ih =>
      obtain ⟨k, x⟩ := entry
      obtain ⟨hnew, hrest⟩ := List.nodup_cons.1 hnodup
      by_cases hk : k = key
      · subst hk
        have hsame : rest.flatMap f = rest.flatMap g := by
          refine List.flatMap_congr fun other hother => hothers other (List.mem_cons_of_mem _ hother) ?_
          rintro rfl
          exact hnew (List.mem_map.2 ⟨_, hother, rfl⟩)
        simp [Assoc.find?, hsame]
      · have hfirst : f (k, x) = g (k, x) := hothers (k, x) List.mem_cons_self hk
        simpa [Assoc.find?, hk, hfirst]
          using ih hrest fun other hother => hothers other (List.mem_cons_of_mem _ hother)

/-- The file raises the same issues as one that is tracked, if it is. -/
theorem Configuration.check_withFile_iff (haround : Around name before after) (hname : PlainName name)
    (hproper : ∀ e ∈ before ++ after, e.Proper)
    (hdistinct : (Assoc.keys standards.config.perFile).Nodup) :
    check (describe standards root (withFile name (some new) before after)) standards
        = check (describe standards root (withFile name old before after)) standards
      ↔ ∀ rule, Assoc.find? name standards.config.perFile = some rule →
          checkFile name rule (configFile new)
            = old.elim [] fun content => checkFile name rule (configFile content) := by
  have hfound : ∀ content, Assoc.find? name ((withFile name content before after).filterMap
      Event.file?) = content := by
    intro content
    rw [haround.find?_withFile hname hproper, if_pos rfl]
  have hothers : ∀ entry ∈ standards.config.perFile, entry.1 ≠ name →
      Assoc.find? entry.1 ((withFile name (some new) before after).filterMap Event.file?)
        = Assoc.find? entry.1 ((withFile name old before after).filterMap Event.file?) := by
    intro entry _ hne
    rw [haround.find?_withFile hname hproper, if_neg hne,
      haround.find?_withFile hname hproper old, if_neg hne]
  rw [check_describe, check_describe,
    flatMap_eq_iff hdistinct fun entry hentry hne => by rw [hothers entry hentry hne]]
  simp only [hfound, Option.elim_some]

/-! ### Files that are asked for -/

theorem filter_map_eq_iff {α β : Type} {f : α → β} (hf : Function.Injective f) {p q : α → Bool}
    (xs : List α) : (xs.filter p).map f = (xs.filter q).map f ↔ ∀ x ∈ xs, p x = q x := by
  rw [(List.map_injective_iff.2 hf).eq_iff]
  constructor
  · intro h x hx
    have hmem : x ∈ xs.filter p ↔ x ∈ xs.filter q := by rw [h]
    rw [List.mem_filter, List.mem_filter, and_iff_right hx, and_iff_right hx] at hmem
    exact Bool.eq_iff_iff.2 hmem
  · exact List.filter_congr

theorem hasFile_withFile (hname : PlainName name) (content : Option ByteArray) (path : String) :
    (describe standards root (withFile name content before after)).hasFile path
      = ((describe standards root (withFile name none before after)).hasFile path
        || (content.isSome && path = name)) := by
  rw [Bool.eq_iff_iff, Snapshot.hasFile, Snapshot.hasFile, files_withFile hname,
    files_withFile hname]
  cases content with
  | none => simp
  | some c =>
      simp only [List.contains_eq_mem, List.mem_append, Option.map_some, Option.toList_some,
        List.mem_singleton, decide_eq_true_eq, Option.map_none, Option.toList_none,
        List.not_mem_nil, or_false, Bool.or_eq_true, Option.isSome_some, Bool.true_and]
      tauto

theorem readme_withFile (hname : PlainName name) (hreadme : isReadme name = false)
    (content : Option ByteArray) :
    (describe standards root (withFile name content before after)).readme
      = (describe standards root (withFile name none before after)).readme := by
  show readme? _ = readme? _
  rw [readme?, readme?, file?_withFile hname, file?_withFile hname]
  cases content <;> simp [List.find?_append, hreadme]

/-- A file of the root is at depth one. -/
theorem maxDepth_withFile (content : Option ByteArray) :
    (describe standards root (withFile name content before after)).maxDepth
      = max (describe standards root (withFile name none before after)).maxDepth
          (content.elim 0 fun _ => 1) := by
  refine eq_of_forall_ge_iff fun bound => ?_
  show ((withFile name content before after).map Event.depth).foldl max 0 ≤ bound ↔
    max (((withFile name none before after).map Event.depth).foldl max 0) _ ≤ bound
  rw [max_le_iff, foldl_max_le_iff, foldl_max_le_iff]
  cases content with
  | none => simp
  | some c =>
      have hone : (∀ x ∈ ((some c).map (Event.file [name])).toList.map Event.depth, x ≤ bound)
          ↔ 1 ≤ bound := by simp [Event.depth]
      have hnone : ∀ x ∈ ((none : Option ByteArray).map (Event.file [name])).toList.map Event.depth,
          x ≤ bound := by simp
      simp only [withFile, List.map_append, List.forall_mem_append, hone, Option.elim_some]
      tauto

/-! ### Directories and files -/

namespace Structure

theorem filter_severity (rules : StructureRules) (s : Snapshot) (severity : Severity) :
    (missingFiles rules s ++ missingRecommended rules s ++ tooDeep rules s).filter
        (fun issue => decide (issue.severity = severity))
      = match severity with
        | .error => missingFiles rules s
        | .info => missingRecommended rules s
        | .warning => tooDeep rules s := by
  have hfiles : ∀ issue ∈ missingFiles rules s, issue.severity = .error := by
    intro issue h
    rcases List.mem_map.1 h with ⟨path, _, rfl⟩
    rfl
  have hrecommended : ∀ issue ∈ missingRecommended rules s, issue.severity = .info := by
    intro issue h
    rcases List.mem_map.1 h with ⟨path, _, rfl⟩
    rfl
  have hdeep : ∀ issue ∈ tooDeep rules s, issue.severity = .warning := by
    intro issue h
    rw [tooDeep] at h
    split at h
    · obtain rfl := List.mem_singleton.1 h
      rfl
    · cases h
  rw [List.filter_append, List.filter_append, filter_of_agree hfiles,
    filter_of_agree hrecommended, filter_of_agree hdeep]
  cases severity <;> simp

/-- Between the same directories and what cannot be read, each kind of issue is found as before. -/
theorem check_eq_iff {s s' : Snapshot} (hdirectories : s'.directories = s.directories)
    (hunreadable : s'.unreadable = s.unreadable) :
    check s' standards = check s standards ↔
      missingFiles standards.structural s' = missingFiles standards.structural s ∧
        missingRecommended standards.structural s' = missingRecommended standards.structural s ∧
          tooDeep standards.structural s' = tooDeep standards.structural s := by
  have hthere : s'.hasDirectory = s.hasDirectory := by
    funext path
    rw [Snapshot.hasDirectory, Snapshot.hasDirectory, hdirectories]
  have hmissing : missingDirectories standards.structural s'
      = missingDirectories standards.structural s := by
    rw [missingDirectories, missingDirectories, hthere]
  have hread : unreadable s' = unreadable s := by rw [unreadable, unreadable, hunreadable]
  constructor
  · -- Each kind of issue has its own severity, so it can be told from the others.
    intro h
    have hmiddle : missingFiles standards.structural s' ++ missingRecommended standards.structural s'
          ++ tooDeep standards.structural s'
        = missingFiles standards.structural s ++ missingRecommended standards.structural s
          ++ tooDeep standards.structural s := by
      simp only [check, hmissing, hread] at h
      simpa only [List.append_assoc, List.append_right_inj] using List.append_cancel_right h
    have hfilter := fun severity => (filter_severity standards.structural s' severity).symm.trans
      ((congrArg (List.filter _) hmiddle).trans (filter_severity standards.structural s severity))
    exact ⟨hfilter .error, hfilter .info, hfilter .warning⟩
  · rintro ⟨hfiles, hrecommended, hdeep⟩
    simp only [check, hmissing, hread, hfiles, hrecommended, hdeep]

/-- At the same depth it matters only which entry is named. -/
theorem tooDeep_eq_iff {s s' : Snapshot} (hdepth : s'.maxDepth = s.maxDepth)
    (rules : StructureRules) : tooDeep rules s' = tooDeep rules s ↔
      (rules.maxDepth < s.maxDepth → deepest? s' = deepest? s) := by
  rw [tooDeep, tooDeep, hdepth]
  by_cases hdeep : rules.maxDepth < s.maxDepth
  · simp [hdeep]
  · simp [hdeep]

section

variable {s s' : Snapshot} {earlier later : List String}
  (hdirectories : s'.directories = s.directories) (hfiles : s.files = earlier ++ later)
  (hfiles' : s'.files = earlier ++ name :: later) (hdepth : depthOf name = 1)
  (hbound : ∀ path ∈ s.directories ++ s.files, 1 ≤ depthOf path ∧ depthOf path ≤ s.maxDepth)

include hdirectories hfiles hfiles' hdepth hbound

/-- The entry that is named as the deepest stays so if the new one does not come first. -/
theorem deepest?_insert (hsame : s'.maxDepth = s.maxDepth)
    (hfirst : s.maxDepth = 1 → s.directories ++ earlier ≠ []) : deepest? s' = deepest? s := by
  rw [deepest?, deepest?, hsame, hdirectories, hfiles, hfiles', ← List.append_assoc,
    ← List.append_assoc]
  by_cases hone : s.maxDepth = 1
  · -- All entries are at this depth, so the first of them is named.
    obtain ⟨first, rest, hcons⟩ := List.exists_cons_of_ne_nil (hfirst hone)
    have hmem : first ∈ s.directories ++ s.files := by
      rw [hfiles, ← List.append_assoc, hcons]
      simp
    have hfound : depthOf first = s.maxDepth :=
      Nat.le_antisymm (hbound first hmem).2 (hone ▸ (hbound first hmem).1)
    simp [hcons, hfound]
  · have hother : ¬ depthOf name = s.maxDepth := fun heq => hone (heq.symm.trans hdepth)
    rw [List.find?_append, List.find?_cons_of_neg (by simpa using hother), ← List.find?_append]

/-- Where no depth is allowed, the new file comes to be named unless another entry comes before it. -/
theorem tooDeep_insert_iff (hmax : s'.maxDepth = max s.maxDepth 1) (hnew : name ∉ later)
    (hflat : s.directories = [] → s.maxDepth ≤ 1) (rules : StructureRules) :
    tooDeep rules s' = tooDeep rules s ↔ (rules.maxDepth = 0 → s.directories ++ earlier ≠ []) := by
  have hpositive : ∀ path ∈ s.directories ++ s.files, s'.maxDepth = s.maxDepth := by
    intro path hpath
    have hle := hbound path hpath
    omega
  constructor
  · intro h hzero hnil
    obtain ⟨hnone, rfl⟩ := List.append_eq_nil_iff.1 hnil
    have hle := hflat hnone
    have hdeep' : rules.maxDepth < s'.maxDepth := by omega
    have hdeep : rules.maxDepth < s.maxDepth := by
      by_contra hnot
      simp [tooDeep, hdeep', hnot] at h
    have hnamed : deepest? s' = some name := by
      have hone : s'.maxDepth = 1 := by omega
      simp [deepest?, hdirectories, hnone, hfiles', hdepth, hone]
    have hsame := (tooDeep_eq_iff (by omega) rules).1 h hdeep
    have hfound : (s.directories ++ s.files).find? (fun path => depthOf path = s.maxDepth)
        = some name := hsame.symm.trans hnamed
    exact hnew (by simpa [hnone, hfiles] using List.mem_of_find?_eq_some hfound)
  · intro h
    by_cases hthere : s.directories ++ earlier = []
    · -- Then the limit allows files of the root, and there is nothing else.
      have hle := hflat (List.append_eq_nil_iff.1 hthere).1
      have hallowed : rules.maxDepth ≠ 0 := fun hzero => h hzero hthere
      rw [tooDeep, tooDeep, if_neg (by omega), if_neg (by omega)]
    · obtain ⟨path, hpath⟩ := List.exists_mem_of_ne_nil _ hthere
      have hsame := hpositive path (by
        rw [hfiles, ← List.append_assoc]
        exact List.mem_append_left _ hpath)
      refine (tooDeep_eq_iff hsame rules).2 fun _ => ?_
      exact deepest?_insert hdirectories hfiles hfiles' hdepth hbound hsame fun _ => hthere

end

end Structure

/-- A path that is listed has a depth, which is at most the greatest one. -/
theorem depthOf_le_maxDepth {events : List Event} (hproper : ∀ e ∈ events, e.Proper) :
    ∀ path ∈ (describe standards root events).directories ++ (describe standards root events).files,
      1 ≤ depthOf path ∧ depthOf path ≤ (describe standards root events).maxDepth := by
  have hdepth : (describe standards root events).maxDepth
      = (((describe standards root events).directories
          ++ (describe standards root events).files).map depthOf).foldl max 0 :=
    (depth_listed hproper).trans (foldl_max_eq _).symm
  intro path hpath
  refine ⟨Nat.le_add_left _ _, ?_⟩
  exact ((foldl_max_le_iff _ 0 _).1 hdepth.ge).2 _ (List.mem_map_of_mem hpath)

/-- What is listed before a file is a directory, or a file with a smaller name. -/
theorem precedes_iff (haround : Around name before after) (hname : PlainName name)
    (hproper : ∀ e ∈ before ++ after, e.Proper)
    (hspread : Spread [] (withFile name none before after)) :
    (describe standards root (withFile name none before after)).directories
        ++ (before.filterMap Event.file?).map Prod.fst ≠ [] ↔
      (describe standards root (withFile name none before after)).directories ≠ [] ∨
        ∃ path ∈ (describe standards root (withFile name none before after)).files,
          path < name := by
  by_cases hnone : (describe standards root (withFile name none before after)).directories = []
  · -- All files are in the root, so the events around the file tell the order of their names.
    have hroot : ∀ e ∈ before ++ after, e.depth ≤ 1 := by
      intro e he
      exact hspread.depth_le_one hnone e (subset_withFile none he)
    obtain ⟨hsmaller, hgreater⟩ := haround.lt_of_flat hproper hroot
    have hfiles : (describe standards root (withFile name none before after)).files
        = (before.filterMap Event.file?).map Prod.fst
          ++ (after.filterMap Event.file?).map Prod.fst := by
      rw [files_withFile hname, Option.map_none, Option.toList_none, List.append_nil]
    rw [hnone, hfiles, List.nil_append, or_iff_right (not_not_intro rfl)]
    constructor
    · intro hne
      obtain ⟨path, hpath⟩ := List.exists_mem_of_ne_nil _ hne
      exact ⟨path, List.mem_append_left _ hpath, hsmaller path hpath⟩
    · rintro ⟨path, hpath, hlt⟩ hnil
      rw [hnil, List.nil_append] at hpath
      exact lt_asymm hlt (hgreater path hpath)
  · exact iff_of_true (fun hnil => hnone (List.append_eq_nil_iff.1 hnil).1) (.inl hnone)

/-! ### Files that are there -/

section

variable (haround : Around name before after) (hname : PlainName name)
  (hproper : ∀ e ∈ before ++ after, e.Proper)

include haround hname hproper

/-- Something about each missing file of a list is said as before, unless the file is new in it. -/
theorem missing_withFile_iff {β : Type} {f : String → β} (hf : Function.Injective f)
    (paths : List String) :
    (paths.filter fun path =>
          !(describe standards root (withFile name (some new) before after)).hasFile path).map f
        = (paths.filter fun path =>
          !(describe standards root (withFile name old before after)).hasFile path).map f
      ↔ (old = none → name ∉ paths) := by
  have hnone : (describe standards root (withFile name none before after)).hasFile name = false := by
    obtain ⟨hbefore, hafter⟩ := haround.not_mem hname hproper
    have hmem : name ∉ (describe standards root (withFile name none before after)).files := by
      rw [files_withFile hname]
      simpa [Assoc.keys] using And.intro hbefore hafter
    simpa [Snapshot.hasFile] using hmem
  rw [filter_map_eq_iff hf]
  simp only [hasFile_withFile hname (some new), hasFile_withFile hname old]
  constructor
  · rintro h rfl hmem
    simpa [hnone] using h name hmem
  · intro h path hpath
    by_cases hsame : path = name
    · subst hsame
      cases old with
      | none => exact absurd hpath (h rfl)
      | some c => simp
    · simp [hsame]

theorem Documentation.check_withFile_iff (hreadme : isReadme name = false) :
    check (describe standards root (withFile name (some new) before after)) standards
        = check (describe standards root (withFile name old before after)) standards
      ↔ (old = none → name ∈ standards.docs.requiredFiles →
          name ∈ standards.structural.requiredFiles) := by
  have hinjective : Function.Injective missingDocument := by
    intro path path' h
    exact Option.some.inj (congrArg Issue.target h)
  rw [check, check, readme_withFile hname hreadme (some new), readme_withFile hname hreadme old,
    List.append_left_inj, missingDocuments, missingDocuments]
  simp only [Bool.and_comm (!List.contains _ _)]
  rw [← List.filter_filter, ← List.filter_filter,
    missing_withFile_iff haround hname hproper hinjective]
  simp [List.mem_filter]

/-- Where no depth is allowed, the file comes to be named unless another entry is named before it. -/
theorem Structure.tooDeep_withFile_iff (rules : StructureRules)
    (hspread : Spread [] (withFile name old before after)) :
    tooDeep rules (describe standards root (withFile name (some new) before after))
        = tooDeep rules (describe standards root (withFile name old before after))
      ↔ (old = none → rules.maxDepth = 0 →
          (describe standards root (withFile name old before after)).directories ≠ [] ∨
            ∃ path ∈ (describe standards root (withFile name old before after)).files,
              path < name) := by
  cases old with
  | some c =>
      let s := describe standards root (withFile name (some c) before after)
      let s' := describe standards root (withFile name (some new) before after)
      have hdirectories : s'.directories = s.directories :=
        (directories_withFile (some new)).trans (directories_withFile (some c)).symm
      have hfiles : s'.files = s.files :=
        (files_withFile hname (some new)).trans (files_withFile hname (some c)).symm
      have hdepth : s'.maxDepth = s.maxDepth :=
        (maxDepth_withFile (some new)).trans (maxDepth_withFile (some c)).symm
      have hnamed : deepest? s' = deepest? s := by
        rw [deepest?, deepest?, hdirectories, hfiles, hdepth]
      simpa using (tooDeep_eq_iff hdepth rules).2 fun _ => hnamed
  | none =>
      let s := describe standards root (withFile name none before after)
      let s' := describe standards root (withFile name (some new) before after)
      let earlier := (before.filterMap Event.file?).map Prod.fst
      let later := (after.filterMap Event.file?).map Prod.fst
      have hdirectories : s'.directories = s.directories :=
        (directories_withFile (some new)).trans (directories_withFile none).symm
      have hfiles : s.files = earlier ++ later :=
        (files_withFile hname none).trans (congrArg (· ++ later) (List.append_nil earlier))
      have hfiles' : s'.files = earlier ++ name :: later :=
        (files_withFile hname (some new)).trans (List.append_assoc earlier [name] later)
      have hdepth : depthOf name = 1 := by
        rw [depthOf, List.count_eq_zero.2 hname.no_slash]
      have hflat : s.directories = [] → s.maxDepth ≤ 1 := by
        intro hnone
        refine (foldl_max_le_iff _ 0 1).2 ⟨Nat.zero_le 1, ?_⟩
        exact List.forall_mem_map.2 (hspread.depth_le_one hnone)
      have hinsert := tooDeep_insert_iff hdirectories hfiles hfiles' hdepth
        (depthOf_le_maxDepth (proper_withFile hname hproper none)) (maxDepth_withFile (some new))
        (haround.not_mem hname hproper).2 hflat rules
      rw [hinsert, precedes_iff haround hname hproper hspread]
      exact ⟨fun h _ => h, fun h => h rfl⟩

theorem Structure.check_withFile_iff (hspread : Spread [] (withFile name old before after)) :
    check (describe standards root (withFile name (some new) before after)) standards
        = check (describe standards root (withFile name old before after)) standards
      ↔ (old = none → name ∉ standards.structural.requiredFiles) ∧
        (old = none → name ∉ standards.structural.recommendedFiles) ∧
        (old = none → standards.structural.maxDepth = 0 →
          (describe standards root (withFile name old before after)).directories ≠ [] ∨
            ∃ path ∈ (describe standards root (withFile name old before after)).files,
              path < name) := by
  have hinjective : ∀ (severity : Severity) (message : String → String),
      Function.Injective fun path => missingFile severity (message path) path := by
    intro severity message path path' h
    exact Option.some.inj (congrArg Issue.target h)
  rw [check_eq_iff ((directories_withFile (some new)).trans (directories_withFile old).symm)
      ((unreadable?_withFile (some new)).trans (unreadable?_withFile old).symm),
    tooDeep_withFile_iff haround hname hproper _ hspread, missingFiles, missingFiles,
    missing_withFile_iff haround hname hproper (hinjective _ _), missingRecommended,
    missingRecommended, missing_withFile_iff haround hname hproper (hinjective _ _)]

end

/-! ## All issues -/

/--
A file of the root with a content, where there was another one or none, raises no issue that it did
not raise before, and settles none.
-/
structure Unnoticed (standards : Standards) (s : Snapshot) (name : String) (old : Option ByteArray)
    (new : ByteArray) : Prop where
  named : old = none → Naming.fileName standards.naming name = none
  unasked : old = none → name ∉ standards.structural.requiredFiles
    ++ standards.structural.recommendedFiles ++ standards.docs.requiredFiles
  shallow : old = none → standards.structural.maxDepth = 0 →
    s.directories ≠ [] ∨ ∃ path ∈ s.files, path < name
  styled : Style.fileIssues standards.style name new
    = old.elim [] (Style.fileIssues standards.style name)
  tracked : ∀ rule, Assoc.find? name standards.config.perFile = some rule →
    Configuration.checkFile name rule (configFile new)
      = old.elim [] fun content => Configuration.checkFile name rule (configFile content)

/-- The issues of a project stay the same just if a file that comes to its root is not noticed. -/
theorem evaluate_withFile_iff (haround : Around name before after) (hname : PlainName name)
    (hreadme : isReadme name = false)
    (hdistinct : (Assoc.keys standards.config.perFile).Nodup)
    (hproper : ∀ e ∈ before ++ after, e.Proper)
    (hspread : Spread [] (withFile name old before after))
    (hspread' : Spread [] (withFile name (some new) before after)) :
    evaluate (describe standards root (withFile name (some new) before after)) standards
        = evaluate (describe standards root (withFile name old before after)) standards
      ↔ Unnoticed standards (describe standards root (withFile name old before after)) name old
          new := by
  have hnodup : ∀ content, Spread [] (withFile name content before after) →
      (((withFile name content before after).filterMap Event.file?).map Prod.fst).Nodup := by
    intro content hspread
    exact (nodup_listed (proper_withFile hname hproper content) hspread.distinct).2
  have hfamilies : ∀ P : Category → Prop, (∀ category, P category) ↔ P .structural ∧ P .naming ∧
      P .codeStyle ∧ P .documentation ∧ P .configuration := by
    intro P
    constructor
    · intro h
      exact ⟨h _, h _, h _, h _, h _⟩
    · rintro ⟨hstructural, hnaming, hstyle, hdocumentation, hconfiguration⟩ category
      cases category <;> assumption
  rw [evaluate_eq_iff, hfamilies]
  dsimp only [Category.check]
  -- Each family tells for itself what it notices; the conditions overlap in what is asked for.
  rw [Structure.check_withFile_iff haround hname hproper hspread, Naming.check_withFile_iff hname,
    Style.check_withFile_iff hname (hnodup old hspread) (hnodup (some new) hspread'),
    Documentation.check_withFile_iff haround hname hproper hreadme,
    Configuration.check_withFile_iff haround hname hproper hdistinct]
  constructor
  · rintro ⟨⟨hrequired, hrecommended, hdeep⟩, hnamed, hstyled, hdocuments, htracked⟩
    refine ⟨hnamed, ?_, hdeep, hstyled, htracked⟩
    intro hnone hmem
    rcases List.mem_append.1 hmem with hmem | hmem
    · rcases List.mem_append.1 hmem with hmem | hmem
      · exact hrequired hnone hmem
      · exact hrecommended hnone hmem
    · exact hrequired hnone (hdocuments hnone hmem)
  · rintro ⟨hnamed, hunasked, hdeep, hstyled, htracked⟩
    have hasked : ∀ {paths : List String}, paths ⊆ standards.structural.requiredFiles
        ++ standards.structural.recommendedFiles ++ standards.docs.requiredFiles →
        old = none → name ∉ paths := fun hpaths hnone hmem => hunasked hnone (hpaths hmem)
    exact ⟨⟨hasked (by simp), hasked (by simp), hdeep⟩, hnamed, hstyled,
      fun hnone hmem => absurd hmem (hasked (by simp) hnone), htracked⟩

end

end Rules
end ProjectConsistency
