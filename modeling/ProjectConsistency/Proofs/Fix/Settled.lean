import ProjectConsistency.Proofs.Fix.Turns
import ProjectConsistency.Proofs.Fix.Upkeep
import ProjectConsistency.Proofs.Naming.Compliance
import ProjectConsistency.Proofs.Walk.Inventory

/-!
# Settled — after the renames only failed renames are left to ask for

A second analysis sees a project under its new names.  This file defines:

* `Renaming.wantedFor` — the name that an entry of a given shape ought to have;
* `Renaming.Named` — an entry of a project that is kept, and the rename that is asked for.

The renames that are asked for are those of the kept entries (`mem_asked_iff`), and every rename of
the plan is recorded as made or as failed (`made_or_failed`).  An entry that is kept under its new
names was kept under its old ones, as only kept entries are renamed (`keeps_of_keeps_relabel`).  If
its rename was made, its name is compliant, and if none was asked for, none is asked for again; so
`apply_settles_names` is left with the entries whose renames failed.
-/

namespace ProjectConsistency

open FileSystem Walk.Event

namespace Renaming

open Rules.Naming

/-! ## What is asked for -/

/-- The name that an entry of a shape ought to have, if it has another. -/
def wantedFor (rules : NamingRules) : Shape → String → Option String
  | .directory => directoryName rules
  | .file _ => fileName rules
  | .link _ => fun _ => none

theorem wantedName_eq (rules : NamingRules) {project : Node} {place : Location} {x : Shape}
    (h : project.shapeAt place = some x) :
    wantedName rules project place = place.getLast?.bind (wantedFor rules x) := by
  cases x with
  | directory => simp [wantedName, h, wantedFor]
  | file _ => simp [wantedName, h, wantedFor]
  | link _ => cases hlast : place.getLast? <;> simp [wantedName, h, wantedFor]

/-- The name that an entry ought to have is not to be changed again. -/
theorem keepsPlain_wantedFor (rules : NamingRules) (x : Shape) : KeepsPlain (wantedFor rules x) := by
  cases x with
  | directory => exact keepsPlain_directoryName rules
  | file _ => exact keepsPlain_fileName rules
  | link _ => exact fun _ _ _ h => nomatch h

/-- A name that was wanted is kept. -/
theorem wantedFor_of_wanted {rules : NamingRules} {x : Shape} {name wanted : String}
    (hascii : Text.Ascii name.toList) (h : wantedFor rules x name = some wanted)
    (hne : wanted ≠ name) : wantedFor rules x wanted = none := by
  cases x with
  | directory => exact directoryName_of_wanted hascii h hne
  | file _ => exact fileName_of_wanted hascii h hne
  | link _ => rfl

/-- An entry of a project is kept, and a rename is asked for it. -/
structure Named (rules : NamingRules) (filter : NameFilter) (project : Node) (names : Location)
    (x : Shape) (r : Renaming) : Prop where
  ne_root : names ≠ []
  there : project.shapeAt names = some x
  kept : filter.keeps names x.isDirectory = true
  asked : forPath? (wantedFor rules x) (pathText names) = some r

theorem forPath?_of_wanted {wanted : String → Option String} (hkeeps : KeepsPlain wanted)
    {above : List String} {old new : String} (hold : PlainName old) (hnew : wanted old = some new)
    (hne : new ≠ old) :
    forPath? wanted (pathText (above ++ [old]))
      = some ⟨pathText (above ++ [old]), pathText (above ++ [new])⟩ := by
  simp [forPath?, splitParent_pathText hold, hnew, hne,
    renamed_parentText above (hkeeps old new hold hnew)]

theorem Named.source_eq {rules : NamingRules} {filter : NameFilter} {project : Node}
    {names : Location} {x : Shape} {r : Renaming} (h : Named rules filter project names x r) :
    r.source = pathText names :=
  source_of_forPath? h.asked

section

variable {fs : FileSystem} {settings : Settings} {filter : NameFilter} {path : String}
  {root : Location} {project : Node} {s : Snapshot}

/-- Without links, the renames that are asked for are those of the kept entries. -/
theorem mem_asked_iff (hfs : fs.tree.WellFormed)
    (hlocate : fs.locate true path = .ok (root, project)) (hlinks : project.LinkFree)
    (hfilter : NameFilter.ofPatterns settings.scanner.exclude = .ok filter)
    (hs : Analysis.analyze fs settings path = .ok s) (standards : Standards) (r : Renaming) :
    r ∈ (Rules.evaluate s standards).filterMap ofIssue? ↔
      ∃ names x, Named standards.naming filter project names x r := by
  rw [asked_eq, List.mem_append]
  constructor
  · rintro (h | h)
    · rcases List.mem_filterMap.1 h with ⟨text, htext, hasked⟩
      rcases (Analysis.mem_directories_iff hfs hlocate hfilter hs (.inl hlinks) text).1 htext with
        ⟨names, hne, rfl, hthere, hkept⟩
      exact ⟨names, .directory, hne, hthere, hkept, hasked⟩
    · rcases List.mem_filterMap.1 h with ⟨text, htext, hasked⟩
      rcases (Analysis.mem_files_iff hfs hlocate hfilter hs (.inl hlinks) text).1 htext with
        ⟨names, content, hne, rfl, hthere, hkept⟩
      exact ⟨names, .file content, hne, hthere, hkept, hasked⟩
  · rintro ⟨names, x, hne, hthere, hkept, hasked⟩
    cases x with
    | directory =>
        exact .inl (List.mem_filterMap.2 ⟨_,
          Analysis.listed_of_kept_directory hfs hlocate hfilter hs hne hthere hkept, hasked⟩)
    | file content =>
        exact .inr (List.mem_filterMap.2 ⟨_,
          Analysis.listed_of_kept_file hfs hlocate hfilter hs hne hthere hkept, hasked⟩)
    | link target => simp [forPath?, wantedFor] at hasked

end

/-! ## What is recorded -/

/-- Each rename of a list is recorded as made or as failed. -/
theorem made_or_failed (root : String) (fs : FileSystem) {plan : List Renaming} {r : Renaming}
    (hr : r ∈ plan) :
    let records := (Fix.runAll (fix root) fs plan).2
    (r, r.record .applied) ∈ plan.zip records ∨
      ∃ reason, (r, r.record (.failed reason)) ∈ plan.zip records := by
  induction plan generalizing fs with
  | nil => simp at hr
  | cons first rest ih =>
      intro records
      have hrecords : records = (fix root fs first).2
          :: (Fix.runAll (fix root) (fix root fs first).1 rest).2 := rfl
      rw [hrecords, List.zip_cons_cons]
      rcases List.mem_cons.1 hr with rfl | hr
      · cases hrun : perform fs root r with
        | ok fs' => exact .inl (by simp [fix_of_ok hrun])
        | error e => exact .inr ⟨e.message, by simp [fix_of_error hrun]⟩
      · rcases ih (fix root fs first).1 hr with hmade | ⟨reason, hfailed⟩
        · exact .inl (List.mem_cons_of_mem _ hmade)
        · exact .inr ⟨reason, List.mem_cons_of_mem _ hfailed⟩

/-- A rename of the plan that is not recorded as made is recorded as failed. -/
theorem failed_of_not_made {root : String} {fs : FileSystem} {plan : List Renaming} {r : Renaming}
    (hr : r ∈ plan) (hmade : r.source ∉ madeOf plan (Fix.runAll (fix root) fs plan).2) :
    ∃ reason, (r, r.record (.failed reason)) ∈ plan.zip (Fix.runAll (fix root) fs plan).2 := by
  rcases made_or_failed root fs hr with happlied | hfailed
  · exact absurd (List.mem_map.2 ⟨_, List.mem_filter.2 ⟨happlied, rfl⟩, rfl⟩) hmade
  · exact hfailed

/-! ## The second analysis -/

/-- Only the entries whose renames were made have new names. -/
theorem newName_eq_some {rules : NamingRules} {project : Node} {made : List String}
    {place : Location} {new : String} (h : newName rules project made place = some new) :
    pathText place ∈ made ∧ wantedName rules project place = some new := by
  by_cases hmade : pathText place ∈ made
  · exact ⟨hmade, by simpa [newName, hmade] using h⟩
  · simp [newName, hmade] at h

/-- If an entry is kept under its new names, it is kept under its old ones, provided that entries
with new names are. -/
theorem keeps_of_keeps_relabel {f : Location → Option String} {filter : NameFilter}
    {project : Node} (hnamed : ∀ p x, p ≠ [] → project.shapeAt p = some x → (f p).isSome →
      filter.keeps p x.isDirectory = true) {old : Location} {x : Shape}
    (hthere : project.shapeAt old = some x)
    (hkept : filter.keeps (relabel f [] old) x.isDirectory = true) :
    filter.keeps old x.isDirectory = true := by
  -- From the root on: an entry without a new name is judged by the same name in both cases.
  induction old using List.reverseRecOn generalizing x with
  | nil => rfl
  | append_singleton above name ih =>
      by_cases hnew : (f (above ++ [name])).isSome
      · exact hnamed _ x (by simp) hthere hnew
      · have hsame : f (above ++ [name]) = none := by simpa using hnew
        have habove : project.shapeAt above = some .directory :=
          Node.shapeAt_directory_of_append (by simp) hthere
        rw [relabel_append, List.nil_append] at hkept
        simp only [relabel, hsame, Option.getD_none, NameFilter.keeps_concat,
          Bool.and_eq_true] at hkept ⊢
        exact ⟨ih habove hkept.1, hkept.2⟩

/-- The root of a relabelled project is a directory if it was one, as no rename concerns it. -/
theorem Relabelled.get?_root {before after : FileSystem} {root : Location} {project : Node}
    {names : Location → Option String} (h : Relabelled before root project names after)
    (hdirectory : project.shapeAt [] = some .directory) :
    ∃ entries, after.tree.get? root = some (.directory entries) := by
  have hshape := h.shape [] .directory hdirectory
  exact Node.shapeAt_eq_directory_iff.1 (by simpa [relabel] using hshape)

/-- No links come into a project that is relabelled. -/
theorem Relabelled.linkFree {before after : FileSystem} {root : Location} {project project' : Node}
    {names : Location → Option String} (h : Relabelled before root project names after)
    (hproject' : after.tree.get? root = some project') (hlinks : project.LinkFree) :
    project'.LinkFree := by
  intro at' target hlink
  have hshape := Node.shapeAt_below hproject' at'
  rw [Node.shapeAt_of_get? hlink] at hshape
  rcases h.onto at' _ hshape with ⟨old, hold, _⟩
  rcases Option.map_eq_some_iff.1 hold with ⟨node, hnode, hkind⟩
  cases node with
  | link target' => exact hlinks old target' hnode
  | file _ => simp [Node.shape] at hkind
  | directory _ => simp [Node.shape] at hkind

section

variable {fs : FileSystem} {settings : Settings} {filter : NameFilter} {path : String}
  {root : Location} {project : Node} {s : Snapshot}

section

variable (hfs : fs.tree.WellFormed) (hlocate : fs.locate true path = .ok (root, project))
  (hlinks : project.LinkFree)
  (hfilter : NameFilter.ofPatterns settings.scanner.exclude = .ok filter)
  (hs : Analysis.analyze fs settings path = .ok s)

include hfs hlocate hlinks hfilter hs

/-- The plan renames the entries that are kept and have another name than they ought to, and no
others. -/
theorem mem_plan_iff (standards : Standards) (r : Renaming) :
    r ∈ plan s (Rules.evaluate s standards) ↔
      ∃ names x, Named standards.naming filter project names x r := by
  rw [(plan_perm s _).mem_iff, mem_asked_iff hfs hlocate hlinks hfilter hs]

/-- An entry whose rename was made is kept, and its new name differs from the old one. -/
theorem named_of_mem_madeOf (standards : Standards) {records : List FixRecord} {place : Location}
    {x : Shape} (hne : place ≠ []) (hthere : project.shapeAt place = some x)
    (hmade : pathText place ∈ madeOf (plan s (Rules.evaluate s standards)) records) :
    ∃ r, Named standards.naming filter project place x r := by
  have hwell : project.WellFormed := hfs.of_get? (Analysis.get?_of_locate hlocate)
  rcases mem_of_mem_madeOf hmade with ⟨r, hr, hsource⟩
  rcases (mem_plan_iff hfs hlocate hlinks hfilter hs standards r).1 hr with ⟨names, y, hnamed⟩
  -- The path of the rename is the path of one entry only.
  obtain rfl : place = names := by
    refine eq_of_pathText hwell hne hnamed.ne_root (List.prefix_refl _) (List.prefix_refl _)
      (Node.isSome_of_shapeAt hthere) (Node.isSome_of_shapeAt hnamed.there) ?_
    rw [← hsource, hnamed.source_eq]
  obtain rfl : y = x := Option.some.inj (hnamed.there.symm.trans hthere)
  exact ⟨r, hnamed⟩

/-- What is kept under the new names was kept under the old ones, as only kept entries are renamed. -/
theorem keeps_of_keeps_newName (standards : Standards) {records : List FixRecord} {old : Location}
    {x : Shape} (hold : project.shapeAt old = some x)
    (hkept : filter.keeps (relabel (newName standards.naming project
      (madeOf (plan s (Rules.evaluate s standards)) records)) [] old) x.isDirectory = true) :
    filter.keeps old x.isDirectory = true := by
  refine keeps_of_keeps_relabel ?_ hold hkept
  intro p y hp hy hsome
  rcases Option.isSome_iff_exists.1 hsome with ⟨new, hnew⟩
  rcases named_of_mem_madeOf hfs hlocate hlinks hfilter hs standards hp hy
    (newName_eq_some hnew).1 with ⟨_, hnamed⟩
  exact hnamed.kept

/-- An entry that has a new name is to have no other one. -/
theorem wantedFor_eq_none_of_newName (standards : Standards)
    (hascii : ∀ at', (project.get? at').isSome → ∀ name ∈ at', Text.Ascii name.toList)
    {records : List FixRecord} {above : Location} {name new : String} {x : Shape}
    (hthere : project.shapeAt (above ++ [name]) = some x)
    (hnew : newName standards.naming project
      (madeOf (plan s (Rules.evaluate s standards)) records) (above ++ [name]) = some new) :
    wantedFor standards.naming x new = none := by
  have hwell : project.WellFormed := hfs.of_get? (Analysis.get?_of_locate hlocate)
  have hisSome := Node.isSome_of_shapeAt hthere
  obtain ⟨hmade, hwanted⟩ := newName_eq_some hnew
  have hfor : wantedFor standards.naming x name = some new := by
    simpa [wantedName_eq standards.naming hthere] using hwanted
  rcases named_of_mem_madeOf hfs hlocate hlinks hfilter hs standards (by simp) hthere hmade with
    ⟨_, hnamed⟩
  rcases Option.isSome_iff_exists.1 hisSome with ⟨node, hnode⟩
  rcases cases_of_forPath? (keepsPlain_wantedFor standards.naming x)
    (hwell.names_of_get? hnode name (by simp)).1 hnamed.asked with
    ⟨other, hother, hdiffers, _⟩
  obtain rfl : new = other := Option.some.inj (hfor.symm.trans hother)
  exact wantedFor_of_wanted (hascii _ hisSome name (by simp)) hfor hdiffers

/-- If a rename is asked for an entry that has no new name, it failed. -/
theorem failed_of_named (standards : Standards) {place : Location} {x : Shape} {r : Renaming}
    (hnamed : Named standards.naming filter project place x r) :
    let planned := plan s (Rules.evaluate s standards)
    let records := (Fix.runAll (fix s.root) fs planned).2
    newName standards.naming project (madeOf planned records) place = none →
      r ∈ planned ∧ ∃ reason, (r, r.record (.failed reason)) ∈ planned.zip records := by
  intro planned records hnone
  have hplanned := (mem_plan_iff hfs hlocate hlinks hfilter hs standards _).2 ⟨_, _, hnamed⟩
  refine ⟨hplanned, failed_of_not_made hplanned ?_⟩
  intro hmade
  -- Had it been made, the entry would have the name that the convention asks for.
  rw [hnamed.source_eq] at hmade
  have hwanted : wantedName standards.naming project place = none := by
    simpa [newName, planned, records, hmade] using hnone
  obtain ⟨above, name, rfl⟩ : ∃ above name, place = above ++ [name] :=
    ⟨_, _, (List.dropLast_concat_getLast hnamed.ne_root).symm⟩
  have hwell : project.WellFormed := hfs.of_get? (Analysis.get?_of_locate hlocate)
  rcases Option.isSome_iff_exists.1 (Node.isSome_of_shapeAt hnamed.there) with ⟨node, hnode⟩
  rcases cases_of_forPath? (keepsPlain_wantedFor standards.naming x)
    (hwell.names_of_get? hnode name (by simp)).1 hnamed.asked with
    ⟨other, hother, _, _⟩
  simp [wantedName_eq standards.naming hnamed.there, hother] at hwanted

/-- If a rename is asked for under the new names of an entry, the rename of the entry failed. -/
theorem failed_of_named_relabel (standards : Standards)
    (hascii : ∀ at', (project.get? at').isSome → ∀ name ∈ at', Text.Ascii name.toList)
    {old : Location} {x : Shape} {r : Renaming} (hthere : project.shapeAt old = some x) :
    let planned := plan s (Rules.evaluate s standards)
    let records := (Fix.runAll (fix s.root) fs planned).2
    let names := newName standards.naming project (madeOf planned records)
    (∀ name ∈ relabel names [] old, PlainName name) → relabel names [] old ≠ [] →
      filter.keeps (relabel names [] old) x.isDirectory = true →
      forPath? (wantedFor standards.naming x) (pathText (relabel names [] old)) = some r →
      ∃ r' reason, r' ∈ planned ∧ r'.source = pathText old ∧
        (r', r'.record (.failed reason)) ∈ planned.zip records := by
  intro planned records names hplain hne hkept hasked
  have hold : old ≠ [] := by
    rintro rfl
    exact hne rfl
  obtain ⟨above, name, rfl⟩ : ∃ above name, old = above ++ [name] :=
    ⟨_, _, (List.dropLast_concat_getLast hold).symm⟩
  have hlast : relabel names [] (above ++ [name])
      = relabel names [] above ++ [(names (above ++ [name])).getD name] := by
    rw [relabel_append]
    rfl
  rw [hlast] at hplain hasked
  rcases cases_of_forPath? (keepsPlain_wantedFor standards.naming x) (hplain _ (by simp)) hasked
    with ⟨wanted, hwanted, hdiffers, _⟩
  -- A renamed entry complies with its new name; so the entry still has its old one.
  cases hnew : names (above ++ [name]) with
  | some new =>
      rw [hnew, Option.getD_some, wantedFor_eq_none_of_newName hfs hlocate hlinks hfilter hs
        standards hascii hthere hnew] at hwanted
      cases hwanted
  | none =>
      rw [hnew, Option.getD_none] at hwanted hdiffers hplain
      -- The old name was judged in the first analysis too, where its rename was planned.
      have hkeeps : filter.keeps (above ++ [name]) x.isDirectory = true :=
        keeps_of_keeps_newName hfs hlocate hlinks hfilter hs standards hthere hkept
      have hnamed : Named standards.naming filter project (above ++ [name]) x
          ⟨pathText (above ++ [name]), pathText (above ++ [wanted])⟩ :=
        ⟨hold, hthere, hkeeps, forPath?_of_wanted (keepsPlain_wantedFor standards.naming x)
          (hplain name (by simp)) hwanted hdiffers⟩
      obtain ⟨hplanned, reason, hfailed⟩ :=
        failed_of_named hfs hlocate hlinks hfilter hs standards hnamed hnew
      exact ⟨_, reason, hplanned, rfl, hfailed⟩

end

/--
One pass of renames settles the names of a project without links whose names are ASCII.  The project
is still a directory at its root, and its path leads there if it is not too long.  By any path that
does, the project can be analysed again with the same settings, and an issue about a name then asks
for a rename only if it concerns an entry, under its new names, whose own rename is recorded as
failed.
-/
theorem apply_settles_names (hfs : fs.tree.WellFormed)
    (hlocate : fs.locate true path = .ok (root, project)) (hlinks : project.LinkFree)
    (hascii : ∀ at', (project.get? at').isSome → ∀ name ∈ at', Text.Ascii name.toList)
    (hs : Analysis.analyze fs settings path = .ok s) (formatter : Formatter) :
    let issues := Rules.evaluate s settings.standards
    let after := Fix.apply fs s settings.standards { rename := true } formatter issues
    let names := newName settings.standards.naming project (madeOf (plan s issues) after.2)
    ∃ project', after.1.tree.get? root = some project' ∧
      (Fits root → after.1.locate true s.root = .ok (root, project')) ∧
      ∀ path', after.1.locate true path' = .ok (root, project') →
        ∃ s', Analysis.analyze after.1 settings path' = .ok s' ∧
          ∀ issue ∈ Rules.evaluate s' settings.standards, issue.category = .naming →
            ∀ source target, issue.remedy = some (.rename source target) →
              ∃ old r reason, (project.get? old).isSome ∧
                source = pathText (relabel names [] old) ∧
                r ∈ plan s issues ∧ r.source = pathText old ∧
                (r, r.record (.failed reason)) ∈ (plan s issues).zip after.2 := by
  intro issues after names
  have hroot : IsRoot fs root project := ⟨hfs, Analysis.get?_of_locate hlocate⟩
  have hdesc : s.Describes root project :=
    Analysis.describes_of_analyze hfs hlocate (.inl hlinks) hs
  rcases Analysis.filter_of_analyze hfs hlocate hs with ⟨filter, hfilter, _⟩
  have hafter : after = Fix.runAll (fix s.root) fs (plan s issues) :=
    apply_rename_only fs s settings.standards formatter issues
  have hfs' : after.1.tree.WellFormed :=
    Fix.wellFormed_apply hfs s settings.standards true false formatter issues
  have hrelabelled : Relabelled fs root project names after.1 := by
    have hplan := plan_relabels hroot hdesc settings.standards
    dsimp only at hplan
    rwa [← hafter] at hplan
  -- The renames take place below the root, so it is there afterwards, under its own name.
  obtain ⟨entries', hproject'⟩ : ∃ entries', after.1.tree.get? root = some (.directory entries') := by
    rcases Analysis.cases_of_analyze hs with ⟨_, found, entries, hfound, _⟩
    cases hlocate.symm.trans hfound
    exact hrelabelled.get?_root rfl
  have hlinks' : (Node.directory entries').LinkFree := hrelabelled.linkFree hproject' hlinks
  refine ⟨.directory entries', hproject', ?_, ?_⟩
  · intro hfits
    rw [hdesc.root_eq]
    exact locate_pathOf hroot.names hfits hproject'
  · intro path' hlocate'
    have hs' := Analysis.analyze_eq_ok hfs' hfilter hlocate' rfl rfl
    refine ⟨_, hs', ?_⟩
    intro issue hissue hcategory source target hremedy
    -- A naming issue of the second analysis is a rename asked for at a place of the new tree.
    have hasked : (⟨source, target⟩ : Renaming) ∈
        (Rules.evaluate _ settings.standards).filterMap ofIssue? :=
      List.mem_filterMap.2 ⟨issue, hissue, by simp [ofIssue?, hcategory, hremedy]⟩
    rcases (mem_asked_iff hfs' hlocate' hlinks' hfilter hs' settings.standards _).1 hasked with
      ⟨found, x, hnamed⟩
    -- That place is the image of an old one, whose own rename then has failed.
    rcases hrelabelled.onto found x ((Node.shapeAt_below hproject' found).trans hnamed.there) with
      ⟨old, hold, rfl⟩
    rcases Option.isSome_iff_exists.1 (Node.isSome_of_shapeAt hnamed.there) with ⟨node, hnode⟩
    have hplain : ∀ name ∈ relabel names [] old, PlainName name := fun name hname =>
      ((hfs'.of_get? hproject').names_of_get? hnode name hname).1
    have hfailed := failed_of_named_relabel hfs hlocate hlinks hfilter hs settings.standards hascii
      (r := ⟨source, target⟩) hold
    dsimp only at hfailed
    rw [← hafter] at hfailed
    rcases hfailed hplain hnamed.ne_root hnamed.kept hnamed.asked with
      ⟨r, reason, hr, hsource, hrecord⟩
    exact ⟨old, r, reason, Node.isSome_of_shapeAt hold, hnamed.source_eq, hr, hsource, hrecord⟩

end

/-! ## The sample -/

theorem apply_settles_names_sample :
    let issues := Rules.evaluate sampleSnapshot sampleSettings.standards
    let after := Fix.apply sample sampleSnapshot sampleSettings.standards { rename := true }
      (fun fs _ => (fs, .ok 0)) issues
    ∃ s', Analysis.analyze after.1 sampleSettings sampleSnapshot.root = .ok s' ∧
      ∀ issue ∈ Rules.evaluate s' sampleSettings.standards, issue.category = .naming →
        ∀ source target, issue.remedy ≠ some (.rename source target) := by
  intro issues after
  have hascii : ∀ at', (sampleProject.get? at').isSome →
      ∀ name ∈ at', Text.Ascii name.toList := by
    intro at' hthere
    have hall : ∀ l ∈ sampleProject.locations, ∀ name ∈ l, Text.Ascii name.toList := by decide
    rcases Option.isSome_iff_exists.1 hthere with ⟨node, hnode⟩
    exact hall at' (Node.mem_locations hnode)
  have hrecords : ∀ record ∈ after.2, record.outcome.isFailed = false := by
    simp only [after, issues, apply_rename_only, plan_sample]
    decide +kernel
  rcases apply_settles_names wellFormed_sample rfl linkFree_sampleProject hascii analyze_sample
    (fun fs _ => (fs, .ok 0)) with ⟨project', _, hpath, hagain⟩
  rcases hagain _ (hpath (by decide)) with ⟨s', hs', hissues⟩
  refine ⟨s', hs', ?_⟩
  intro issue hissue hcategory source target hremedy
  rcases hissues issue hissue hcategory source target hremedy with ⟨_, r, reason, _, _, _, _, hr⟩
  have hfailed := hrecords _ (List.of_mem_zip hr).2
  simp [record, FixOutcome.isFailed] at hfailed

end Renaming
end ProjectConsistency
