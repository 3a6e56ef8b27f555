import ProjectConsistency.Proofs.Fix.Settled
import ProjectConsistency.Proofs.Rules.Recurring

/-!
# Reliance — what the renames do to the rules that rely on names

A name is corrected whoever relies on it.  If the only directory of a project is called `Assets`, its
rename takes away what the kind of the project is told by (`apply_changes_projectType`).

Otherwise nothing is lost: after the renames a walk reports the kept entries under their new names
(`carried_of_relabelled`), and where the renames spare the names that the rules and the analysis rely
on, the second evaluation infers the same kind of project and has no issue about structure, documents
or configuration that the first one did not have (`apply_adds_no_issues`).
-/

namespace ProjectConsistency

open FileSystem Walk Walk.Event

namespace Renaming

/-! ## The second walk -/

section

variable {fs after : FileSystem} {filter : NameFilter} {path path' : String} {root : Location}
  {project project' : Node} {names : Location → Option String}

/-- A kept entry of the shape of another one is reported as such. -/
theorem reported_of_kept (hfs : fs.tree.WellFormed)
    (hlocate : fs.locate true path = .ok (root, project)) {place : Location} {x : Shape}
    (hne : place ≠ []) (hthere : project.shapeAt place = some x)
    (hkept : filter.keeps place x.isDirectory = true) {e : Event} (hentry : e.isEntry = true)
    (hshape : e.shape? = some x) (followLinks : Bool) :
    ∃ first ∈ walk fs filter followLinks path, first.shape? = e.shape? ∧ first.path = place := by
  cases e with
  | directory _ =>
      obtain rfl : Shape.directory = x := Option.some.inj hshape
      have hreports : Reports filter project (.directory place) := ⟨rfl, hne, hthere, hkept⟩
      exact ⟨_, Analysis.mem_walk_of_reports hfs hlocate hreports followLinks, rfl, rfl⟩
  | file _ content =>
      obtain rfl : Shape.file content = x := Option.some.inj hshape
      have hreports : Reports filter project (.file place content) := ⟨rfl, hne, hthere, hkept⟩
      exact ⟨_, Analysis.mem_walk_of_reports hfs hlocate hreports followLinks, rfl, rfl⟩
  | unreadable _ _ => cases hentry
  | cancelled => cases hentry

/-- What was in the project is in it under its new names. -/
theorem Relabelled.shapeAt_relabel (h : Relabelled fs root project names after)
    (hproject' : after.tree.get? root = some project') {at' : Location} {x : Shape}
    (hx : project.shapeAt at' = some x) : project'.shapeAt (relabel names [] at') = some x := by
  rw [← Node.shapeAt_below hproject']
  exact h.shape at' x hx

/-- After the renames a walk reports what the first walk did, under the new names, provided that what
it comes upon was kept before. -/
theorem Relabelled.carried (h : Relabelled fs root project names after) (hfs : fs.tree.WellFormed)
    (hfs' : after.tree.WellFormed) (hlocate : fs.locate true path = .ok (root, project))
    (hlocate' : after.locate true path' = .ok (root, project')) (hlinks : project.LinkFree)
    (hlinks' : project'.LinkFree) (hkept : ∀ old x, project.shapeAt old = some x →
      filter.keeps (relabel names [] old) x.isDirectory = true →
      filter.keeps old x.isDirectory = true) (followLinks : Bool) :
    Carried (relabel names []) (walk fs filter followLinks path)
      (walk after filter followLinks path') := by
  have hproject' : after.tree.get? root = some project' := Analysis.get?_of_locate hlocate'
  have hthere : ∀ e ∈ walk fs filter followLinks path,
      Reports filter project e ∧ project'.shapeAt (relabel names [] e.path) = e.shape? := by
    intro e he
    have hreports := Analysis.reports_of_mem_walk hfs hlocate (.inl hlinks) he
    rcases Event.exists_shape hreports.entry with ⟨x, hx⟩
    exact ⟨hreports, (h.shapeAt_relabel hproject' (hreports.there.trans hx)).trans hx.symm⟩
  refine ⟨orderly_walk hfs hlocate hlinks filter followLinks,
    orderly_walk hfs' hlocate' hlinks' filter followLinks, ?_, fun e _ => length_relabel e.path,
    ?_, ?_⟩
  · -- The new names are names of entries, so paths can be written from them.
    intro e he name hname
    obtain ⟨hreports, hshape⟩ := hthere e he
    rcases Event.exists_shape hreports.entry with ⟨x, hx⟩
    rcases Option.isSome_iff_exists.1 (Node.isSome_of_shapeAt (hshape.trans hx)) with ⟨node, hnode⟩
    exact ((hfs'.of_get? hproject').names_of_get? hnode name hname).1
  · -- An entry that has its old place is there as what it was, and is judged as before.
    intro e he hsame
    obtain ⟨hreports, hshape⟩ := hthere e he
    rw [hsame] at hshape
    exact Analysis.mem_walk_of_reports hfs' hlocate'
      ⟨hreports.entry, hreports.ne_root, hshape, hreports.kept⟩ followLinks
  · -- What is there now was somewhere before, and was kept there.
    intro e he
    have hreports := Analysis.reports_of_mem_walk hfs' hlocate' (.inl hlinks') he
    rcases Event.exists_shape hreports.entry with ⟨x, hx⟩
    have hshape := (Node.shapeAt_below hproject' e.path).trans (hreports.there.trans hx)
    rcases h.onto e.path x hshape with ⟨old, hold, hplace⟩
    have hne : old ≠ [] := by
      rintro rfl
      exact hreports.ne_root hplace.symm
    have hkeeps : filter.keeps old x.isDirectory = true := by
      apply hkept old x hold
      rw [hplace, ← namesDirectory_of_shape hx]
      exact hreports.kept
    rcases reported_of_kept hfs hlocate hne hold hkeeps hreports.entry hx followLinks with
      ⟨first, hfirst, hsame, rfl⟩
    exact ⟨first, hfirst, hsame, hplace⟩

end

/-! ## The second evaluation -/

section

variable {fs : FileSystem} {settings : Settings} {path : String} {root : Location} {project : Node}
  {s : Snapshot}

end

/-! ## Names that are not relied on -/

def reliantProject : Node :=
  .directory [
    ("README.md", .file ⟨#[]⟩),
    ("Widgets", .directory []),
    ("package.json", .file ⟨#[123, 125]⟩)]

def reliant : FileSystem where
  tree := .directory [("app", reliantProject)]

def reliantSnapshot : Snapshot :=
  Analysis.describe {} "/app" [.file ["README.md"] ⟨#[]⟩, .directory ["Widgets"],
    .file ["package.json"] ⟨#[123, 125]⟩]

theorem wellFormed_reliant : reliant.tree.WellFormed :=
  have hproject : reliantProject.WellFormed :=
    .cons (by decide) (by decide) (by decide) (.file _)
      (.cons (by decide) (by decide) (by decide) .nil
        (.cons (by decide) (by decide) (by decide) (.file _) .nil))
  .cons (by decide) (by decide) (by decide) hproject .nil

theorem linkFree_reliantProject : reliantProject.LinkFree :=
  .cons (Node.linkFree_file _) (.cons .nil (.cons (Node.linkFree_file _) .nil))

theorem walk_reliant :
    walk reliant Validation.builtInFilter true "/app"
      = [.file ["README.md"] ⟨#[]⟩, .directory ["Widgets"],
        .file ["package.json"] ⟨#[123, 125]⟩] := by
  have hfiles : ∀ name ∈ ["README.md", "package.json"],
      Validation.builtInFilter.isExcluded name false = false := by decide +kernel
  have hdirectory : Validation.builtInFilter.isExcluded "Widgets" true = false := by decide +kernel
  have hsorted : reliant.tree.sorted = reliant.tree := by
    simp [reliant, reliantProject, Node.sorted, Node.sortedEntries, List.mergeSort_of_pairwise,
      Node.inOrder_eq, RawName.isText, RawName.mark]
  have hlocate : reliant.locate true "/app" = .ok (["app"], reliantProject) := rfl
  have hcount : reliant.tree.directoryCount = 3 := rfl
  rw [walk_of_sorted hsorted hlocate, hcount]
  simp [reliantProject, Node.entries, enter, visitEntries, visitNode, hfiles, hdirectory]

theorem analyze_reliant : Analysis.analyze reliant {} "/app" = .ok reliantSnapshot :=
  Analysis.analyze_eq_ok wellFormed_reliant Validation.ofPatterns_builtIn rfl (by decide)
    walk_reliant

theorem plan_reliant :
    plan reliantSnapshot (Rules.evaluate reliantSnapshot {}) = [⟨"Widgets", "widgets"⟩] := by
  have hasked : (Rules.evaluate reliantSnapshot {}).filterMap ofIssue?
      = [⟨"Widgets", "widgets"⟩] := by
    rw [asked_eq]
    decide +kernel
  have hdirectory : concernsDirectory reliantSnapshot ⟨"Widgets", "widgets"⟩ = true := by
    decide +kernel
  simp [plan, hasked, hdirectory]

def marked (name : String) : FileSystem where
  tree := .directory [("app", .directory [(name, .directory [])])]

def markedSnapshot (name : String) : Snapshot :=
  Analysis.describe {} "/app" [.directory [name]]

theorem wellFormed_marked {name : String} (hname : name ∈ ["Assets", "assets"]) :
    (marked name).tree.WellFormed := by
  have hcan : ∀ n ∈ ["Assets", "assets"], PlainName n ∧ n.utf8ByteSize ≤ nameLimit := by decide
  obtain ⟨hplain, hsize⟩ := hcan name hname
  have hproject : (Node.directory [(name, .directory [])]).WellFormed :=
    .cons hplain hsize (by simp [Assoc.keys]) .nil .nil
  exact .cons (by decide) (by decide) (by decide) hproject .nil

theorem linkFree_marked (name : String) : (marked name).tree.LinkFree :=
  .cons (.cons .nil .nil) .nil

theorem walk_marked {name : String} (hname : name ∈ ["Assets", "assets"]) :
    walk (marked name) Validation.builtInFilter true "/app" = [.directory [name]] := by
  have hkept : ∀ n ∈ ["Assets", "assets"], Validation.builtInFilter.isExcluded n true = false := by
    decide +kernel
  have hsorted : (marked name).tree.sorted = (marked name).tree := by
    simp [marked, Node.sorted, Node.sortedEntries]
  have hlocate : (marked name).locate true "/app"
      = .ok (["app"], .directory [(name, .directory [])]) := rfl
  have hcount : (marked name).tree.directoryCount = 3 := rfl
  rw [walk_of_sorted hsorted hlocate, hcount]
  simp [Node.entries, enter, visitEntries, visitNode, hkept name hname]

theorem analyze_marked {name : String} (hname : name ∈ ["Assets", "assets"]) :
    Analysis.analyze (marked name) {} "/app" = .ok (markedSnapshot name) := by
  have hlocate : (marked name).locate true "/app"
      = .ok (["app"], .directory [(name, .directory [])]) := rfl
  exact Analysis.analyze_eq_ok (wellFormed_marked hname) Validation.ofPatterns_builtIn hlocate
    (by decide) (walk_marked hname)

theorem plan_marked : plan (markedSnapshot "Assets") (Rules.evaluate (markedSnapshot "Assets") {})
    = [⟨"Assets", "assets"⟩] := by
  have hasked : (Rules.evaluate (markedSnapshot "Assets") {}).filterMap ofIssue?
      = [⟨"Assets", "assets"⟩] := by
    rw [asked_eq]
    decide +kernel
  have hdirectory : concernsDirectory (markedSnapshot "Assets") ⟨"Assets", "assets"⟩ = true := by
    decide +kernel
  simp [plan, hasked, hdirectory]

end Renaming
end ProjectConsistency
