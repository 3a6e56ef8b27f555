import ProjectConsistency.Proofs.FileSystem.WellFormed
import ProjectConsistency.Proofs.Fix.Effects
import ProjectConsistency.Proofs.Path.Above

/-!
# Upkeep — operations keep a tree well-formed

A name that a path puts into a directory comes from between two slashes of a path that was checked,
so it is a name that a directory can hold (`Parent.plain`).  Setting an entry under such a name and
deleting an entry keep a tree well-formed (`WellFormed.put`, `WellFormed.remove`).  Hence each
operation does, and so does a list of fixes without the formatter (`Fix.wellFormed_apply`), whatever
its issues are.
-/

namespace ProjectConsistency

namespace Assoc

variable {α : Type} {entries : List (String × α)} {key name : String} {value x : α}

theorem mem_put (h : (name, x) ∈ put key value entries) :
    (name = key ∧ x = value) ∨ (name, x) ∈ entries := by
  induction entries with
  | nil => exact .inl (by simpa [put] using h)
  | cons entry rest ih =>
      obtain ⟨k, v⟩ := entry
      by_cases hk : k = key
      · rw [put, if_pos hk] at h
        rcases List.mem_cons.1 h with heq | hmem
        · cases heq
          exact .inl ⟨hk, rfl⟩
        · exact .inr (List.mem_cons_of_mem _ hmem)
      · rw [put, if_neg hk] at h
        rcases List.mem_cons.1 h with heq | hmem
        · exact .inr (by simp [heq])
        · exact (ih hmem).imp_right (List.mem_cons_of_mem _)

theorem nodup_keys_put (h : (keys entries).Nodup) : (keys (put key value entries)).Nodup := by
  rw [keys_put]
  by_cases hmem : key ∈ keys entries
  · simpa [hmem] using h
  · rw [if_neg hmem]
    exact List.nodup_append.2 ⟨h, by simp, by grind⟩

theorem keys_erase_sublist (key : String) (entries : List (String × α)) :
    (keys (erase key entries)).Sublist (keys entries) :=
  List.filter_sublist.map _

end Assoc

/-! ## Changing one place -/

namespace Node

/-- A name under which a directory can hold an entry. -/
structure CanHold (name : String) : Prop where
  plain : PlainName name
  short : name.utf8ByteSize ≤ FileSystem.nameLimit

/-- A directory stays well formed when an entry of a possible name is set. -/
theorem WellFormed.putEntry {name : String} {node : Node} {entries : List (String × Node)}
    (h : (Node.directory entries).WellFormed) (hname : CanHold name) (hnode : node.WellFormed) :
    (Node.directory (Assoc.put name node entries)).WellFormed := by
  cases h with
  | directory nodup plain short below =>
      have hkeys : ∀ n ∈ Assoc.keys (Assoc.put name node entries),
          n = name ∨ n ∈ Assoc.keys entries := by
        intro n hn
        rcases List.mem_map.1 hn with ⟨⟨k, x⟩, hmem, rfl⟩
        rcases Assoc.mem_put hmem with ⟨rfl, _⟩ | hmem
        · exact .inl rfl
        · exact .inr (List.mem_map.2 ⟨_, hmem, rfl⟩)
      refine .directory (Assoc.nodup_keys_put nodup) ?_ ?_ ?_
      · intro n hn
        rcases hkeys n hn with rfl | hn
        · exact hname.plain
        · exact plain n hn
      · intro n hn
        rcases hkeys n hn with rfl | hn
        · exact hname.short
        · exact short n hn
      · intro n x hmem
        rcases Assoc.mem_put hmem with ⟨_, rfl⟩ | hmem
        · exact hnode
        · exact below n x hmem

/-- A directory stays well formed without one of its entries. -/
theorem WellFormed.eraseEntry (name : String) {entries : List (String × Node)}
    (h : (Node.directory entries).WellFormed) :
    (Node.directory (Assoc.erase name entries)).WellFormed := by
  cases h with
  | directory nodup plain short below =>
      have hkeys := Assoc.keys_erase_sublist name entries
      exact .directory (hkeys.nodup nodup) (fun n hn => plain n (hkeys.subset hn))
        (fun n hn => short n (hkeys.subset hn))
        fun n x hmem => below n x (List.mem_filter.1 hmem).1

/-- A change of one entry keeps a tree well-formed if the name and the new entry are. -/
theorem WellFormed.alter {change : Option Node → Option Node} {at' : Location} {tree : Node}
    (h : tree.WellFormed) (hname : ∀ name, at'.getLast? = some name → CanHold name)
    (hchange : ∀ old node, change old = some node → node.WellFormed) :
    (tree.alter change at').WellFormed := by
  -- The last name changes an entry of a directory; each name before it puts a changed child back.
  induction at' generalizing tree with
  | nil => cases tree <;> exact h
  | cons first rest ih =>
      cases h with
      | file content => cases rest <;> exact .file content
      | link target => cases rest <;> exact .link target
      | @directory entries nodup plain short below =>
          have hdirectory : (Node.directory entries).WellFormed := .directory nodup plain short below
          by_cases hrest : rest = []
          · subst hrest
            rw [Node.alter]
            cases hnew : change (Assoc.find? first entries) with
            | none => exact hdirectory.eraseEntry first
            | some node => exact hdirectory.putEntry (hname first rfl) (hchange _ node hnew)
          · cases hfind : Assoc.find? first entries with
            | none =>
                -- The way to the place is not there, and nothing happens.
                have hsame : (Node.directory entries).alter change (first :: rest)
                    = Node.directory entries := by
                  cases rest with
                  | nil => exact absurd rfl hrest
                  | cons _ _ => simp [Node.alter, hfind]
                rw [hsame]
                exact hdirectory
            | some child =>
                rw [alter_cons change first hrest hfind]
                have hmem := Assoc.mem_of_find? hfind
                have hkey : first ∈ Assoc.keys entries := List.mem_map.2 ⟨_, hmem, rfl⟩
                refine hdirectory.putEntry ⟨plain _ hkey, short _ hkey⟩
                  (ih (below first child hmem) ?_)
                intro name hlast
                exact hname name (by simp [List.getLast?_cons, hlast])

/-- A well formed node set under a possible name leaves the tree well formed. -/
theorem WellFormed.put {node tree : Node} {directory : Location} {name : String}
    (h : tree.WellFormed) (hname : CanHold name) (hnode : node.WellFormed) :
    (Node.put node (directory ++ [name]) tree).WellFormed := by
  refine h.alter ?_ fun _ _ hsome => Option.some.inj hsome ▸ hnode
  intro last hlast
  obtain rfl : name = last := by simpa using hlast
  exact hname

/-- A tree stays well formed when a node is taken out of it. -/
theorem WellFormed.remove {tree : Node} {directory : Location} {name : String}
    (h : tree.WellFormed) (hname : CanHold name) :
    (Node.remove (directory ++ [name]) tree).WellFormed := by
  refine h.alter ?_ (by simp)
  intro last hlast
  obtain rfl : name = last := by simpa using hlast
  exact hname

end Node

/-! ## Names from paths -/

namespace FileSystem

open Node

variable {fs fs' : FileSystem} {path : String}

/-- The characters between two slashes of a path are characters of the path. -/
theorem mem_of_mem_namesOf {name : String} (h : name ∈ namesOf path) :
    name ≠ "" ∧ '/' ∉ name.toList ∧ ∀ c ∈ name.toList, c ∈ path.toList := by
  rcases List.mem_map.1 h with ⟨piece, hpiece, rfl⟩
  obtain ⟨hsplit, hne⟩ := List.mem_filter.1 hpiece
  refine ⟨?_, ?_, ?_⟩
  · intro hempty
    have hnil : piece = [] := by simpa using congrArg String.toList hempty
    simp [hnil] at hne
  · simpa using Text.not_mem_of_mem_splitOn hsplit
  · intro c hc
    rw [String.toList_ofList] at hc
    -- Splitting a path and joining its pieces again gives the path.
    have hjoin := (List.intercalate_splitOn '/' : _ = path.toList)
    rw [← Text.splitOn_eq] at hjoin
    rw [← hjoin]
    exact mem_intercalate hsplit hc
where
  mem_intercalate {pieces : List (List Char)} {piece : List Char} {c : Char}
      (hpiece : piece ∈ pieces) (hc : c ∈ piece) : c ∈ ['/'].intercalate pieces := by
    induction pieces with
    | nil => simp at hpiece
    | cons first rest ih =>
        by_cases hrest : rest = []
        · subst hrest
          obtain rfl : piece = first := by simpa using hpiece
          simpa using hc
        · rw [List.intercalate_cons_of_ne_nil hrest]
          rcases List.mem_cons.1 hpiece with rfl | hin
          · simp [hc]
          · exact List.mem_append_right _ (ih hin)

/-- The last name of a path can stand in a directory, if it is not too long. -/
theorem Parent.plain {directory : Location} {name : String} {slash : Bool}
    (h : Parent fs path directory name slash) : PlainName name := by
  have hmem : name ∈ namesOf path := by
    rw [h.names]
    simp
  obtain ⟨hne, hslash, hchars⟩ := mem_of_mem_namesOf hmem
  refine ⟨hne, hslash, ?_, h.ne_dot, h.ne_dots⟩
  intro hnul
  have hchecked := h.checked
  simp only [checkPath, List.contains_iff_mem.2 (hchars _ hnul), if_true] at hchecked
  cases hchecked

/-! ## Operations -/

/-- Only names that a directory can hold are found free. -/
theorem short_of_freeName {directory place : Location} {name : String}
    (h : fs.freeName directory name = .ok place) : name.utf8ByteSize ≤ nameLimit := by
  rcases ok_of_bind h with ⟨⟨⟩, hcheck, _⟩
  exact short_of_checkName hcheck

theorem wellFormed_makeDirectory (hfs : fs.tree.WellFormed)
    (h : fs.makeDirectory path = .ok fs') : fs'.tree.WellFormed := by
  rcases ok_of_bind h with ⟨⟨directory, last⟩, hparent, h⟩
  cases last with
  | special => cases h
  | name name slash =>
      rcases ok_of_bind h with ⟨place, hplace, h⟩
      obtain ⟨rfl, _⟩ := freeName_cases hplace
      cases h
      exact hfs.put ⟨(parent_of_parentOf hparent).plain, short_of_freeName hplace⟩ .nil

theorem wellFormed_newFile {content : ByteArray} (hfs : fs.tree.WellFormed)
    (h : fs.newFile path content = .ok fs') : fs'.tree.WellFormed := by
  obtain ⟨directory, name, place, hparent, hplace, rfl⟩ := newFile_cases h
  obtain ⟨rfl, _⟩ := freeName_cases hplace
  exact hfs.put ⟨(parent_of_parentOf hparent).plain, short_of_freeName hplace⟩ (.file content)

theorem wellFormed_rename {source target : String} (hfs : fs.tree.WellFormed)
    (h : fs.rename source target = .ok fs') : fs'.tree.WellFormed := by
  rcases ok_of_bind h with ⟨⟨above, sourceLast⟩, hsource, h⟩
  rcases ok_of_bind h with ⟨⟨directory, targetLast⟩, htarget, h⟩
  cases sourceLast with
  | special => cases h
  | name oldName oldSlash =>
  cases targetLast with
  | special => cases h
  | name newName newSlash =>
      -- Nothing has changed until all refusals are behind; then the node is removed and put.
      rcases ok_of_bind h with ⟨⟨⟩, hold, h⟩
      dsimp only at h
      cases hnode : fs.tree.get? (above ++ [oldName]) with
      | none =>
          rw [hnode] at h
          cases h
      | some node =>
          rw [hnode] at h
          rcases ok_of_bind h with ⟨⟨⟩, hnew, h⟩
          obtain ⟨_, h⟩ := ok_of_guard h
          obtain ⟨_, h⟩ := ok_of_guard h
          obtain ⟨_, h⟩ := ok_of_guard h
          have hremoved : (Node.remove (above ++ [oldName]) fs.tree).WellFormed :=
            hfs.remove ⟨(parent_of_parentOf hsource).plain, short_of_checkName hold⟩
          have hput : (Node.put node (directory ++ [newName])
              (Node.remove (above ++ [oldName]) fs.tree)).WellFormed :=
            hremoved.put ⟨(parent_of_parentOf htarget).plain, short_of_checkName hnew⟩
              (hfs.of_get? hnode)
          by_cases hsame : above ++ [oldName] = directory ++ [newName]
          · rw [if_pos hsame] at h
            cases h
            exact hfs
          · rw [if_neg hsame] at h
            rcases ok_of_bind h with ⟨⟨⟩, _, hdone⟩
            cases hdone
            exact hput

end FileSystem

/-! ## Fixes -/

open FileSystem

/-- A rename leaves the tree well formed, whatever its outcome. -/
theorem Renaming.wellFormed_fix {root : String} {fs : FileSystem} (hfs : fs.tree.WellFormed)
    (r : Renaming) : (fix root fs r).1.tree.WellFormed := by
  cases hrun : perform fs root r with
  | error e => simpa [fix_of_error hrun] using hfs
  | ok fs' => simpa [fix_of_ok hrun] using wellFormed_rename hfs (rename_of_perform hrun).2

/-- A creation leaves the tree well formed, whatever its outcome. -/
theorem Creation.wellFormed_fix {root project : String} {standards : Standards} {fs : FileSystem}
    (hfs : fs.tree.WellFormed) (c : Creation) :
    (fix root project standards fs c).1.tree.WellFormed :=
  fix_keeps (motive := fun fs => fs.tree.WellFormed) hfs
    (fun _ _ _ _ h => wellFormed_makeDirectory h)
    (fun _ _ _ _ _ h => wellFormed_newFile h)

/-- Without the formatter, fixes keep the tree well-formed. -/
theorem Fix.wellFormed_apply {fs : FileSystem} (hfs : fs.tree.WellFormed) (s : Snapshot)
    (standards : Standards) (rename scaffold : Bool) (formatter : Formatter)
    (issues : List Issue) :
    (apply fs s standards { rename, scaffold } formatter issues).1.tree.WellFormed := by
  rw [apply_without_formatter]
  refine runAll_keeps (motive := fun fs => fs.tree.WellFormed)
    (runAll_keeps (motive := fun fs => fs.tree.WellFormed) hfs ?_) ?_
  · exact fun _ r _ h => Renaming.wellFormed_fix h r
  · exact fun _ c _ h => Creation.wellFormed_fix h c

end ProjectConsistency
