import ProjectConsistency.Proofs.Standards.Resolved
import ProjectConsistency.Proofs.Walk.Coherent
import ProjectConsistency.Rules.Style

/-!
# Inspected — which sources the style rules look at

An analysis captures the texts of the files whose extension is configured, and compares extensions
in lower case.  The style rules look for the extension of a file, which is in lower case, among the
configured ones as they are written.  This file defines:

* `Rules.Style.isListed` — the extension of a path is written among the configured ones.

So the files that are inspected are the captured sources with listed extensions
(`inspected_describe`).  These are all of them if extensions are configured in lower case, and a file
with an extension that is written in upper case only is captured and never looked at
(`inspected_misses_source`).
-/

namespace ProjectConsistency

open FileSystem Walk

/-- Under distinct keys an entry is kept or dropped on its own. -/
theorem Assoc.find?_filterMap {α β : Type} (g : String → α → Option β)
    {entries : List (String × α)} (hnodup : (keys entries).Nodup) {key : String} {x : α}
    (hmem : (key, x) ∈ entries) :
    find? key (entries.filterMap fun e => (g e.1 e.2).map ((e.1, ·))) = g key x := by
  have hsublist : (keys (entries.filterMap fun e => (g e.1 e.2).map ((e.1, ·)))).Nodup := by
    rw [keys, List.nodup_iff_pairwise_ne, List.pairwise_map] at hnodup ⊢
    refine List.pairwise_filterMap.2 (hnodup.imp ?_)
    intro a b hne a' ha b' hb
    rcases Option.map_eq_some_iff.1 ha with ⟨_, _, rfl⟩
    rcases Option.map_eq_some_iff.1 hb with ⟨_, _, rfl⟩
    exact hne
  apply Option.ext
  intro y
  rw [find?_eq_some_iff hsublist, List.mem_filterMap]
  constructor
  · rintro ⟨⟨k, x'⟩, hmem', hsome⟩
    rcases Option.map_eq_some_iff.1 hsome with ⟨y', hy', heq⟩
    cases heq
    -- The key stands once, so it is the same entry.
    have hsame : some x' = some x := by
      rw [← (find?_eq_some_iff hnodup).2 hmem', (find?_eq_some_iff hnodup).2 hmem]
    exact Option.some.inj hsame ▸ hy'
  · intro hy
    exact ⟨(key, x), hmem, by simp [hy]⟩

namespace Rules
namespace Style

/-- The extension of the path is written among the configured ones. -/
def isListed (rules : StyleRules) (path : String) : Bool :=
  (extensionOf? path).any fun ext => rules.extensions.contains ext

/-- A file is inspected when its extension is listed as written and its text was kept. -/
theorem inspect?_eq (rules : StyleRules) (s : Snapshot) (path : String) :
    (inspect? rules s path).map Prod.snd
      = if isListed rules path then Assoc.find? path s.sources else none := by
  cases hext : extensionOf? path with
  | none => simp [inspect?, isListed, hext]
  | some ext =>
      by_cases hlisted : ext ∈ rules.extensions
      · cases hfind : Assoc.find? path s.sources <;> simp [inspect?, isListed, hext, hlisted, hfind]
      · simp [inspect?, isListed, hext, hlisted]

end Style
end Rules

namespace Analysis

open Rules.Style

/-- Extensions that are configured in lower case are listed. -/
theorem isListed_of_isSource {rules : StyleRules}
    (hlower : ∀ ext ∈ rules.extensions, Text.lowerAscii ext.toList = ext.toList) {path : String}
    (h : isSource rules path = true) : isListed rules path = true := by
  cases hext : extensionOf? path with
  | none => simp [isSource, hext] at h
  | some ext =>
      simp only [isSource, hext, Option.any_some, List.any_eq_true, decide_eq_true_eq] at h
      obtain ⟨e, he, heq⟩ := h
      rw [hlower e he, String.ofList_toList] at heq
      subst heq
      simpa [isListed, hext] using he

/-- The texts that are kept are those of source files. -/
theorem isSource_of_mem_sources {rules : StyleRules} {files : Files} {path text : String}
    (h : (path, text) ∈ sources rules files) : isSource rules path = true := by
  rcases List.mem_filterMap.1 h with ⟨⟨p, content⟩, _, hsome⟩
  rcases Option.map_eq_some_iff.1 hsome with ⟨found, hfound, heq⟩
  cases heq
  by_cases hsource : isSource rules path = true
  · exact hsource
  · simp [source?, hsource] at hfound

/-- The captured sources with listed extensions are inspected, in order. -/
theorem inspected_describe (standards : Standards) (root : String) {events : List Event}
    (hnodup : ((events.filterMap Event.file?).map Prod.fst).Nodup) :
    let s := describe standards root events
    (inspected standards.style s).map (fun found => (found.1, found.2.2))
      = s.sources.filter fun source => isListed standards.style source.1 := by
  intro s
  have hfile : ∀ entry ∈ events.filterMap Event.file?,
      (inspect? standards.style s entry.1).map (fun found => (entry.1, found.2))
        = ((source? standards.style entry.1 entry.2).map (entry.1, ·)).filter
            fun source => isListed standards.style source.1 := by
    intro entry hentry
    have hfind : Assoc.find? entry.1 s.sources = source? standards.style entry.1 entry.2 :=
      Assoc.find?_filterMap (source? standards.style) hnodup hentry
    have hinspect := congrArg (Option.map (entry.1, ·)) (inspect?_eq standards.style s entry.1)
    rw [Option.map_map] at hinspect
    refine hinspect.trans ?_
    rw [hfind]
    cases hlisted : isListed standards.style entry.1 <;>
      cases source? standards.style entry.1 entry.2 <;> simp [Option.filter, hlisted]
  calc (inspected standards.style s).map (fun found => (found.1, found.2.2))
      = (events.filterMap Event.file?).filterMap
          fun entry => (inspect? standards.style s entry.1).map fun found => (entry.1, found.2) := by
        have hfiles : s.files = (events.filterMap Event.file?).map Prod.fst := rfl
        rw [inspected, hfiles, List.filterMap_map, List.map_filterMap]
        simp only [Function.comp_def, Option.map_map]
    _ = (events.filterMap Event.file?).filterMap fun entry =>
          ((source? standards.style entry.1 entry.2).map (entry.1, ·)).filter
            fun source => isListed standards.style source.1 := List.filterMap_congr hfile
    _ = s.sources.filter fun source => isListed standards.style source.1 :=
        List.filter_filterMap.symm

/--
The style rules inspect the captured sources whose extension is listed, with their captured texts and
in their order.  These are all captured sources just if the extension of each of them is listed, and
so whenever the configured extensions are in lower case.
-/
theorem analyze_inspected {fs : FileSystem} (hfs : fs.tree.WellFormed) {settings : Settings}
    {path : String} {s : Snapshot} (h : analyze fs settings path = .ok s) :
    let rules := settings.standards.style
    (inspected rules s).map (fun found => (found.1, found.2.2))
        = s.sources.filter (fun source => isListed rules source.1) ∧
      ((inspected rules s).map Prod.fst = Assoc.keys s.sources
        ↔ ∀ file ∈ Assoc.keys s.sources, isListed rules file = true) ∧
      ((∀ ext ∈ rules.extensions, Text.lowerAscii ext.toList = ext.toList) →
        (inspected rules s).map Prod.fst = Assoc.keys s.sources) := by
  intro rules
  rcases describes_events hfs h with ⟨filter, root, entries, hlocate, rfl⟩
  have hnodup := (nodup_listed (proper_walk hfs filter settings.scanner.followLinks path)
    (spread_walk hfs hlocate filter settings.scanner.followLinks).distinct).2
  have hinspected := inspected_describe settings.standards (pathOf root) hnodup
  generalize hs : describe settings.standards (pathOf root)
    (walk fs filter settings.scanner.followLinks path) = s at hinspected
  -- The files inspected are the kept ones with a listed extension, in their order.
  have hpaths : (inspected rules s).map Prod.fst
      = Assoc.keys (s.sources.filter fun source => isListed rules source.1) := by
    rw [← hinspected, Assoc.keys, List.map_map]
    rfl
  have hiff : (inspected rules s).map Prod.fst = Assoc.keys s.sources
      ↔ ∀ file ∈ Assoc.keys s.sources, isListed rules file = true := by
    rw [hpaths]
    constructor
    · intro hsame file hfile
      rw [← hsame] at hfile
      rcases List.mem_map.1 hfile with ⟨source, hsource, rfl⟩
      exact (List.mem_filter.1 hsource).2
    · intro hall
      rw [List.filter_eq_self.2 fun source hsource => hall _ (List.mem_map.2 ⟨source, hsource, rfl⟩)]
  refine ⟨hinspected, hiff, ?_⟩
  -- Extensions written in lower case are the ones the texts were kept by.
  intro hlower
  refine hiff.2 ?_
  intro file hfile
  rcases List.mem_map.1 hfile with ⟨⟨_, text⟩, hsource, rfl⟩
  rw [← hs] at hsource
  exact isListed_of_isSource hlower (isSource_of_mem_sources hsource)

/-! ## A sample -/

def tabbedSample : FileSystem where
  tree := .directory [
    ("app", .directory [("a.ts", .file ⟨#[9, 120]⟩), ("b.css", .file ⟨#[120]⟩)])]

/-- One extension is written in upper case. -/
def upperText : String :=
  "[styleRules]\nextensions = [\"TS\", \"css\"]\n\n[scanner]\nexclude = []\n"

def upperSettings : Settings where
  standards := { style := { extensions := ["TS", "css"] } }
  scanner := { exclude := [] }

def tabbedSnapshot : Snapshot :=
  describe upperSettings.standards "/app" [.file ["a.ts"] ⟨#[9, 120]⟩, .file ["b.css"] ⟨#[120]⟩]

theorem wellFormed_tabbedSample : tabbedSample.tree.WellFormed :=
  .cons (by decide) (by decide) (by decide)
    (.cons (by decide) (by decide) (by decide) (.file _)
      (.cons (by decide) (by decide) (by decide) (.file _) .nil)) .nil

theorem analyze_tabbedSample : analyze tabbedSample upperSettings "/app" = .ok tabbedSnapshot := by
  have hsorted : tabbedSample.tree.sorted = tabbedSample.tree := by
    simp [tabbedSample, Node.sorted, Node.sortedEntries, List.mergeSort, Node.inOrder_eq,
      RawName.isText, RawName.mark]
  have hwalk : walk tabbedSample ⟨[], []⟩ true "/app"
      = [.file ["a.ts"] ⟨#[9, 120]⟩, .file ["b.css"] ⟨#[120]⟩] := by
    rw [walk_of_sorted hsorted rfl]
    rfl
  exact analyze_eq_ok wellFormed_tabbedSample rfl rfl (by decide) hwalk

theorem analyze_inspected_tabbedSample :
    analyze tabbedSample upperSettings "/app" = .ok tabbedSnapshot ∧
      (inspected upperSettings.standards.style tabbedSnapshot).map
          (fun found => (found.1, found.2.2)) = [("b.css", "x")] ∧
      ((inspected upperSettings.standards.style tabbedSnapshot).map Prod.fst
          = Assoc.keys tabbedSnapshot.sources
        ↔ ∀ file ∈ ["a.ts", "b.css"], isListed upperSettings.standards.style file = true) := by
  obtain ⟨hinspected, hiff, _⟩ := analyze_inspected wellFormed_tabbedSample analyze_tabbedSample
  exact ⟨analyze_tabbedSample, hinspected.trans (by decide +kernel), hiff⟩

/--
A source with an extension that the document writes in upper case is captured, and the tab in it is
not reported: it is not among the files that are inspected.
-/
theorem inspected_misses_source :
    (Standards.loadFrom (Standards.oneDocument upperText) none "/s.toml").toOption.map (·.settings)
        = some upperSettings ∧
      analyze tabbedSample upperSettings "/app" = .ok tabbedSnapshot ∧
      tabbedSnapshot.sources = [("a.ts", "\tx"), ("b.css", "x")] ∧
      (inspected upperSettings.standards.style tabbedSnapshot).map Prod.fst = ["b.css"] ∧
      Rules.Style.check tabbedSnapshot upperSettings.standards = [] :=
  ⟨by decide +kernel, analyze_tabbedSample, by decide +kernel, by decide +kernel, by decide +kernel⟩

end Analysis
end ProjectConsistency
