import ProjectConsistency.Proofs.Walk.Carried
import ProjectConsistency.Proofs.Walk.Spliced

/-!
# Inserted — a file of the root among other events

A file that comes to the root of a walk, or gets another content there, is one event more, or another
one in the same place.  This file defines:

* `Walk.withFile` — events with a file of the root among them, if it is there.

Events around a file do not report it (`Around.not_mem`), so under its name it is found, and under
other names what is found without it (`Around.find?_withFile`).  Where there are no directories, the
files before it have smaller names, and those after it greater ones (`Around.lt_of_flat`).  The walks
before and after a file was written in the root report the same events around it (`walk_withFile`), and
are the same if its name is excluded (`walk_of_excluded`).
-/

namespace ProjectConsistency

open Walk Walk.Event

theorem Assoc.find?_append {α : Type} (key : String) (xs ys : List (String × α)) :
    find? key (xs ++ ys) = (find? key xs).or (find? key ys) := by
  induction xs with
  | nil => rfl
  | cons entry rest ih =>
      obtain ⟨k, x⟩ := entry
      by_cases hk : k = key
      · simp [find?, hk]
      · simpa [find?, hk] using ih

namespace Walk

/-- Events with a file of the root among them, if it has a content. -/
def withFile (name : String) (content : Option ByteArray) (before after : List Event) : List Event :=
  before ++ (content.map (Event.file [name])).toList ++ after

variable {name : String} {before after : List Event}

/-- What a function picks from the events comes with what it picks from the file. -/
theorem filterMap_withFile {α : Type} (pick : Event → Option α) (content : Option ByteArray) :
    (withFile name content before after).filterMap pick
      = before.filterMap pick ++ (content.bind fun c => pick (.file [name] c)).toList
        ++ after.filterMap pick := by
  rw [withFile, List.filterMap_append, List.filterMap_append]
  cases content with
  | none => rfl
  | some c => cases hpick : pick (.file [name] c) <;> simp [hpick]

theorem file?_withFile (hname : PlainName name) (content : Option ByteArray) :
    (withFile name content before after).filterMap Event.file?
      = before.filterMap Event.file? ++ (content.map (name, ·)).toList
        ++ after.filterMap Event.file? := by
  rw [filterMap_withFile]
  cases content <;> simp [Event.file?, pathText_singleton, hname.shown_eq]

theorem directory?_withFile (content : Option ByteArray) :
    (withFile name content before after).filterMap Event.directory?
      = before.filterMap Event.directory? ++ after.filterMap Event.directory? := by
  rw [filterMap_withFile]
  cases content <;> simp [Event.directory?]

theorem unreadable?_withFile (content : Option ByteArray) :
    (withFile name content before after).filterMap Event.unreadable?
      = before.filterMap Event.unreadable? ++ after.filterMap Event.unreadable? := by
  rw [filterMap_withFile]
  cases content <;> simp [Event.unreadable?]

theorem subset_withFile (content : Option ByteArray) :
    before ++ after ⊆ withFile name content before after := by
  intro e he
  rcases List.mem_append.1 he with he | he
  · exact List.mem_append_left _ (List.mem_append_left _ he)
  · exact List.mem_append_right _ he

theorem proper_withFile (hname : PlainName name) (hproper : ∀ e ∈ before ++ after, e.Proper)
    (content : Option ByteArray) : ∀ e ∈ withFile name content before after, e.Proper := by
  intro e he
  rcases List.mem_append.1 he with he | he
  · rcases List.mem_append.1 he with he | he
    · exact hproper e (List.mem_append_left _ he)
    · rcases Option.map_eq_some_iff.1 (Option.mem_toList.1 he) with ⟨c, _, rfl⟩
      exact ⟨rfl, by simpa [Event.path] using hname, by simp [Event.path]⟩
  · exact hproper e (List.mem_append_right _ he)

/-- The other files have other paths. -/
theorem Around.not_mem (h : Around name before after) (hname : PlainName name)
    (hproper : ∀ e ∈ before ++ after, e.Proper) :
    name ∉ Assoc.keys (before.filterMap Event.file?) ∧
      name ∉ Assoc.keys (after.filterMap Event.file?) := by
  have hother : ∀ e ∈ before ++ after, ∀ n rest, e.path = n :: rest → n ≠ name →
      ∀ file, e.file? = some file → file.1 ≠ name := by
    intro e he n rest hpath hne file hfile heq
    rcases eq_of_file? hfile with ⟨names, rfl, htext⟩
    have hplain : ∀ x ∈ names, PlainName x := (hproper _ he).plain
    rw [heq, ← hname.shown_eq, ← pathText_singleton name] at htext
    have hsame : [name] = names := pathText_injective (by simp) ((hproper _ he).ne_nil rfl)
      (by simpa using hname) hplain htext
    have hcons : [name] = n :: rest := hsame.trans hpath
    exact hne (List.cons.inj hcons).1.symm
  refine ⟨?_, ?_⟩
  · intro hmem
    rcases List.mem_map.1 hmem with ⟨file, hfile, heq⟩
    rcases List.mem_filterMap.1 hfile with ⟨e, he, hsome⟩
    rcases h.before e he with ⟨n, rest, hpath, hlt⟩
    exact hother e (List.mem_append_left _ he) n rest hpath (ne_of_lt hlt) file hsome heq
  · intro hmem
    rcases List.mem_map.1 hmem with ⟨file, hfile, heq⟩
    rcases List.mem_filterMap.1 hfile with ⟨e, he, hsome⟩
    rcases h.after e he with ⟨n, rest, hpath, hlt⟩
    exact hother e (List.mem_append_right _ he) n rest hpath (ne_of_gt hlt) file hsome heq

/-- Under its name the file is found, and under other names what is found without it. -/
theorem Around.find?_withFile (h : Around name before after) (hname : PlainName name)
    (hproper : ∀ e ∈ before ++ after, e.Proper) (content : Option ByteArray) (path : String) :
    Assoc.find? path ((withFile name content before after).filterMap Event.file?)
      = if path = name then content
        else Assoc.find? path ((withFile name none before after).filterMap Event.file?) := by
  obtain ⟨hbefore, hafter⟩ := h.not_mem hname hproper
  have hnone : ∀ {files : List (String × ByteArray)}, name ∉ Assoc.keys files →
      Assoc.find? name files = none := by
    intro files hmem
    rw [← Assoc.isSome_find?_iff] at hmem
    simpa using hmem
  rw [file?_withFile hname, file?_withFile hname]
  by_cases hpath : path = name
  · subst hpath
    cases content <;> simp [Assoc.find?_append, hnone hbefore, hnone hafter, Assoc.find?]
  · have hne : ¬ name = path := fun heq => hpath heq.symm
    cases content <;> simp [Assoc.find?_append, Assoc.find?, hpath, hne]

/-- Without directories, all that is reported is in the root. -/
theorem Spread.depth_le_one {events : List Event} (h : Spread [] events)
    (hnone : events.filterMap Event.directory? = []) : ∀ e ∈ events, e.depth ≤ 1 := by
  intro e he
  by_contra hdeep
  have hlength : 2 ≤ e.path.length := by
    cases e with
    | directory path => exact Nat.lt_of_not_le hdeep
    | file path content => exact Nat.lt_of_not_le hdeep
    | unreadable _ _ => exact absurd (Nat.zero_le 1) hdeep
    | cancelled => exact absurd (Nat.zero_le 1) hdeep
  obtain ⟨first, second, rest, hpath⟩ : ∃ first second rest, e.path = first :: second :: rest := by
    match hpath : e.path with
    | [] => simp [hpath] at hlength
    | [_] => simp [hpath] at hlength
    | first :: second :: rest => exact ⟨first, second, rest, rfl⟩
  have hdirectory := h.preceded e he [first] List.nil_prefix (by simp)
    (hpath ▸ List.prefix_append [first] (second :: rest)) (by simp [hpath])
  have hmissing := List.filterMap_eq_nil_iff.1 hnone _ hdirectory
  cases hmissing

/-- In a root without directories, the file stands between those with smaller and with greater names. -/
theorem Around.lt_of_flat (h : Around name before after) (hproper : ∀ e ∈ before ++ after, e.Proper)
    (hflat : ∀ e ∈ before ++ after, e.depth ≤ 1) :
    (∀ path ∈ (before.filterMap Event.file?).map Prod.fst, path < name) ∧
      ∀ path ∈ (after.filterMap Event.file?).map Prod.fst, name < path := by
  have hsingle : ∀ e ∈ before ++ after, ∀ file, e.file? = some file → ∀ n rest, e.path = n :: rest →
      file.1 = n := by
    intro e he file hfile n rest hpath
    rcases eq_of_file? hfile with ⟨names, rfl, htext⟩
    obtain rfl : names = n :: rest := hpath
    obtain rfl : rest = [] := by simpa [Event.depth] using hflat _ he
    have hplain : PlainName n := (hproper _ he).plain n (by simp [Event.path])
    rw [htext, pathText_singleton, hplain.shown_eq]
  refine ⟨?_, ?_⟩
  · intro path hpath
    rcases List.mem_map.1 hpath with ⟨file, hfile, rfl⟩
    rcases List.mem_filterMap.1 hfile with ⟨e, he, hsome⟩
    rcases h.before e he with ⟨n, rest, hnames, hlt⟩
    rwa [hsingle e (List.mem_append_left _ he) file hsome n rest hnames]
  · intro path hpath
    rcases List.mem_map.1 hpath with ⟨file, hfile, rfl⟩
    rcases List.mem_filterMap.1 hfile with ⟨e, he, hsome⟩
    rcases h.after e he with ⟨n, rest, hnames, hlt⟩
    rwa [hsingle e (List.mem_append_right _ he) file hsome n rest hnames]

/-! ## Walks -/

section

open FileSystem

variable {fs fs' : FileSystem} {path : String} {root : Location} {entries : List (String × Node)}
  {old : Option ByteArray} {content : ByteArray} {filter : NameFilter} {followLinks : Bool}
  (hfs : fs.tree.WellFormed) (hlocate : fs.locate true path = .ok (root, .directory entries))
  (hwritten : Written fs root name old content fs')
  (hlinks : followLinks = true →
    (Plan.ofRoot fs filter true path root).SameLinks (Plan.ofRoot fs' filter true path root))

include hfs hlocate hwritten hlinks

/-- A file with an excluded name is written unseen. -/
theorem walk_of_excluded (hexcluded : filter.isExcluded name false = true) :
    walk fs' filter followLinks path = walk fs filter followLinks path := by
  obtain ⟨before, after, _, hwalk, hwalk'⟩ :=
    walk_written hfs hlocate hwritten filter followLinks hlinks
  rw [hwalk, hwalk']
  cases old <;> simp [fileEvents, hexcluded]

/-- The walks before and after a file was written differ in what they report of the file. -/
theorem walk_withFile (hkept : filter.isExcluded name false = false) :
    ∃ before after, Around name before after ∧
      walk fs filter followLinks path = withFile name old before after ∧
      walk fs' filter followLinks path = withFile name (some content) before after := by
  obtain ⟨before, after, haround, hwalk, hwalk'⟩ :=
    walk_written hfs hlocate hwritten filter followLinks hlinks
  refine ⟨before, after, haround, ?_, ?_⟩
  · rw [hwalk, withFile]
    cases old <;> simp [fileEvents, hkept]
  · rw [hwalk', withFile]
    simp [fileEvents, hkept]

end

end Walk

end ProjectConsistency
