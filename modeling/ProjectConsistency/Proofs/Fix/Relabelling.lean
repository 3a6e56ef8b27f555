import ProjectConsistency.Proofs.Fix.Effects
import ProjectConsistency.Proofs.Fix.RenamePlan
import ProjectConsistency.Proofs.FileSystem.Straight

/-!
# Relabelling — what the renames of a tree without links do to it

The renames change the names of entries, and nothing else.  This file defines:

* `Renaming.relabel` — a location with a new name for each of its prefixes that gets one;
* `Renaming.newName` — the new names after some renames were made: those that the convention asks for;
* `Renaming.Relabelled` — the files of a project under their new names.

Each rename of the plan takes one set of new names to the next (`relabelled_of_perform`): its entry and
the directories above it still have their old names, and it takes along what is below it.  By
induction on the plan the files are relabelled after any part of it (`runAll_relabelled`).  The main
statement, `apply_relabels`, is this for the whole plan, with the records that the fixes leave.
-/

namespace ProjectConsistency

open FileSystem Walk.Event

namespace Renaming

/-! ## New names -/

/-- The location below `above`, with a new name for each of its prefixes that gets one. -/
def relabel (newName : Location → Option String) (above : Location) : Location → Location
  | [] => []
  | name :: rest =>
      (newName (above ++ [name])).getD name :: relabel newName (above ++ [name]) rest

/-- The new name of an entry whose rename was made; `made` holds the paths of such entries. -/
def newName (rules : NamingRules) (project : Node) (made : List String) (place : Location) :
    Option String :=
  if pathText place ∈ made then wantedName rules project place else none

def madeOf (plan : List Renaming) (records : List FixRecord) : List String :=
  ((plan.zip records).filter fun (_, record) => record.outcome.isApplied).map
    fun (r, _) => r.source

section

variable {f g : Location → Option String} {above : Location}

/-- A location in two parts is relabelled in two parts, the second below the first. -/
theorem relabel_append (a b : Location) :
    relabel f above (a ++ b) = relabel f above a ++ relabel f (above ++ a) b := by
  induction a generalizing above with
  | nil => simp [relabel]
  | cons name rest ih => simp [relabel, ih]

/-- New names change no depth. -/
theorem length_relabel (at' : Location) : (relabel f above at').length = at'.length := by
  induction at' generalizing above with
  | nil => rfl
  | cons name rest ih => simp [relabel, ih]

/-- What is below a location stays below it. -/
theorem relabel_mono {a b : Location} (h : a <+: b) :
    relabel f above a <+: relabel f above b := by
  rcases h with ⟨below, rfl⟩
  rw [relabel_append]
  exact List.prefix_append _ _

/-- Only the new names of prefixes count. -/
theorem relabel_congr {at' : Location}
    (h : ∀ p, p ≠ [] → p <+: at' → f (above ++ p) = g (above ++ p)) :
    relabel f above at' = relabel g above at' := by
  induction at' generalizing above with
  | nil => rfl
  | cons name rest ih =>
      have hname : f (above ++ [name]) = g (above ++ [name]) := h [name] (by simp) (by simp)
      have hrest : relabel f (above ++ [name]) rest = relabel g (above ++ [name]) rest := by
        apply ih
        intro p _ hp
        have hcons := h (name :: p) (by simp) (by simpa using hp)
        simpa using hcons
      rw [relabel, relabel, hname, hrest]

theorem relabel_none (at' : Location) : relabel (fun _ => none) above at' = at' := by
  induction at' generalizing above with
  | nil => rfl
  | cons name rest ih => simp [relabel, ih]

/-- A location stays where neither it nor anything above it has a new name. -/
theorem relabel_eq_self {at' : Location}
    (h : ∀ p, p ≠ [] → p <+: at' → f (above ++ p) = none) : relabel f above at' = at' := by
  rw [relabel_congr (g := fun _ => none) h, relabel_none]

end

/-! ## Relabelled files -/

/-- The files of a project in a root, each under its new names, and everything else as it was. -/
structure Relabelled (before : FileSystem) (root : Location) (project : Node)
    (names : Location → Option String) (fs : FileSystem) : Prop where
  shape : ∀ at' x, project.shapeAt at' = some x →
    fs.tree.shapeAt (root ++ relabel names [] at') = some x
  onto : ∀ at' x, fs.tree.shapeAt (root ++ at') = some x →
    ∃ old, project.shapeAt old = some x ∧ relabel names [] old = at'
  injective : ∀ a b, (project.get? a).isSome → (project.get? b).isSome →
    relabel names [] a = relabel names [] b → a = b
  outside : ∀ at', ¬ root <+: at' → fs.tree.shapeAt at' = before.tree.shapeAt at'

/-- The turn of a correction has come: it is justified, and nothing on its way has a new name. -/
structure Correction.Ready (c : Correction) (rules : NamingRules) (project : Node)
    (made : List String) : Prop where
  justified : c.Justified rules project
  fresh : ∀ p, p ≠ [] → p <+: c.place → pathText p ∉ made

section

variable {rules : NamingRules} {before fs fs' : FileSystem} {root : Location} {project : Node}
  {made : List String} {c : Correction}

/-- Before the first rename every file is under its own names. -/
theorem relabelled_refl (hroot : fs.tree.get? root = some project) (rules : NamingRules) :
    Relabelled fs root project (newName rules project []) fs := by
  have hself : ∀ at', relabel (newName rules project []) [] at' = at' :=
    fun at' => relabel_eq_self fun p _ _ => by simp [newName]
  have hshape : ∀ at', fs.tree.shapeAt (root ++ at') = project.shapeAt at' := by
    intro at'
    rw [Node.shapeAt_append, hroot]
    rfl
  refine ⟨?_, ?_, ?_, fun _ _ => rfl⟩
  · intro at' x hx
    rw [hself, hshape, hx]
  · intro at' x hx
    exact ⟨at', by rw [← hshape, hx], hself at'⟩
  · intro a b _ _ heq
    rwa [hself, hself] at heq

/-- Two locations on the ways to entries of a project have the same path only if they are the same. -/
theorem eq_of_pathText (hwell : project.WellFormed) {a b a' b' : Location} (ha : a ≠ [])
    (hb : b ≠ []) (hpre : a <+: a') (hpre' : b <+: b') (ha' : (project.get? a').isSome)
    (hb' : (project.get? b').isSome) (heq : pathText a = pathText b) : a = b := by
  have plain : ∀ {p q : Location}, p <+: q → (project.get? q).isSome →
      ∀ name ∈ p, PlainName name := by
    intro p q hp hq name hname
    rcases Option.isSome_iff_exists.1 hq with ⟨node, hnode⟩
    exact (hwell.names_of_get? hnode name (hp.subset hname)).1
  exact pathText_injective ha hb (plain hpre ha') (plain hpre' hb') heq

namespace Correction

/-- The entry and the directories above it still have their old names. -/
theorem Ready.relabel_eq (h : c.Ready rules project made) {p : Location} (hp : p <+: c.place) :
    relabel (newName rules project made) [] p = p := by
  apply relabel_eq_self
  intro q hq hpre
  simp [newName, h.fresh q hq (hpre.trans hp)]

/-- At another location the new rename does not count. -/
theorem newName_cons_of_ne (hwell : project.WellFormed) (hjust : c.Justified rules project)
    {p at' : Location} (hp : p ≠ []) (hpre : p <+: at') (hthere : (project.get? at').isSome)
    (hne : p ≠ c.place) :
    newName rules project (c.toRenaming.source :: made) p = newName rules project made p := by
  have htext : pathText p ≠ c.toRenaming.source := by
    intro heq
    exact hne (eq_of_pathText hwell hp (by simp [place]) hpre (List.prefix_refl _) hthere
      hjust.isSome_get? heq)
  simp [newName, htext]

/-- The new rename gives the entry its new name. -/
theorem Ready.relabel_cons_place (h : c.Ready rules project made) (hwell : project.WellFormed) :
    relabel (newName rules project (c.toRenaming.source :: made)) [] c.place = c.wanted := by
  -- The directories above have paths that are shorter, so the new rename is not theirs.
  have habove : relabel (newName rules project (c.toRenaming.source :: made)) [] c.above
      = c.above := by
    rw [relabel_congr (g := newName rules project made)]
    · exact h.relabel_eq (List.prefix_append c.above [c.old])
    · intro p hp hpre
      refine newName_cons_of_ne hwell h.justified hp (hpre.trans (List.prefix_append _ _))
        h.justified.isSome_get? ?_
      rintro rfl
      have hlength := hpre.length_le
      simp only [place, List.length_append, List.length_singleton] at hlength
      omega
  have hnew : newName rules project (c.toRenaming.source :: made) (c.above ++ [c.old])
      = some c.new := by
    simpa [newName, toRenaming, place] using h.justified.wanted_eq
  rw [place, relabel_append, habove, wanted]
  simp [relabel, hnew]

/-- The new rename does not count below the entry. -/
theorem relabel_cons_below (hwell : project.WellFormed) (hjust : c.Justified rules project)
    {below : Location} (hthere : (project.get? (c.place ++ below)).isSome) :
    relabel (newName rules project (c.toRenaming.source :: made)) c.place below
      = relabel (newName rules project made) c.place below := by
  apply relabel_congr
  intro p hp hpre
  exact newName_cons_of_ne hwell hjust (by simp [hp]) ((List.prefix_append_right_inj _).2 hpre)
    hthere (by simpa using hp)

/-- The new rename does not count apart from the entry. -/
theorem relabel_cons_of_not_above (hwell : project.WellFormed) (hjust : c.Justified rules project)
    {at' : Location} (hthere : (project.get? at').isSome) (hpre : ¬ c.place <+: at') :
    relabel (newName rules project (c.toRenaming.source :: made)) [] at'
      = relabel (newName rules project made) [] at' := by
  apply relabel_congr
  intro p hp hpat
  exact newName_cons_of_ne hwell hjust hp hpat hthere fun heq => hpre (heq ▸ hpat)

/-- What is apart from the entry does not come below it. -/
theorem Ready.not_above_relabel (h : c.Ready rules project made)
    (hinjective : ∀ a b, (project.get? a).isSome → (project.get? b).isSome →
      relabel (newName rules project made) [] a = relabel (newName rules project made) [] b → a = b)
    {at' : Location} (hthere : (project.get? at').isSome) (hpre : ¬ c.place <+: at') :
    ¬ c.place <+: relabel (newName rules project made) [] at' := by
  intro hplace
  -- The location that has the name of the place now had it before.
  have hlength : c.place.length ≤ at'.length := by
    simpa [length_relabel] using hplace.length_le
  have htake : c.place = relabel (newName rules project made) [] (at'.take c.place.length) := by
    apply List.IsPrefix.eq_of_length
    · exact List.prefix_of_prefix_length_le hplace (relabel_mono (List.take_prefix _ _))
        (by simp [length_relabel, hlength])
    · simp [length_relabel, hlength]
  have hsame : c.place = at'.take c.place.length := by
    apply hinjective _ _ h.justified.isSome_get?
      (Node.isSome_get?_of_above (List.take_prefix _ _) hthere)
    rw [h.relabel_eq (List.prefix_refl _), ← htake]
  exact hpre (hsame ▸ List.take_prefix _ _)

/-- The move of the rename takes the locations under the old names to those under the new ones. -/
theorem Ready.apply_relabel (h : c.Ready rules project made) (hwell : project.WellFormed)
    (hinjective : ∀ a b, (project.get? a).isSome → (project.get? b).isSome →
      relabel (newName rules project made) [] a = relabel (newName rules project made) [] b → a = b)
    {at' : Location} (hthere : (project.get? at').isSome) :
    (Move.mk (root ++ c.place) (root ++ c.wanted)).apply
        (root ++ relabel (newName rules project made) [] at')
      = root ++ relabel (newName rules project (c.toRenaming.source :: made)) [] at' := by
  by_cases hpre : c.place <+: at'
  · -- The entry and what is below it move, and only the name of the entry changes.
    rcases hpre with ⟨below, rfl⟩
    rw [relabel_append, relabel_append, h.relabel_eq (List.prefix_refl c.place),
      h.relabel_cons_place hwell, List.nil_append, relabel_cons_below hwell h.justified hthere,
      ← List.append_assoc, ← List.append_assoc]
    exact apply_append ⟨root ++ c.place, root ++ c.wanted⟩ _
  · -- Anything else stays where it is, under the names that it has.
    have hfixed : ¬ root ++ c.place <+: root ++ relabel (newName rules project made) [] at' := by
      rw [List.prefix_append_right_inj]
      exact h.not_above_relabel hinjective hthere hpre
    rw [apply_eq_self hfixed, relabel_cons_of_not_above hwell h.justified hthere hpre]

end Correction

/-! ## One rename -/

/-- The root of a project in a well-formed file system. -/
structure IsRoot (fs : FileSystem) (root : Location) (project : Node) : Prop where
  wellFormed : fs.tree.WellFormed
  get?_eq : fs.tree.get? root = some project

theorem IsRoot.project_wellFormed (h : IsRoot before root project) : project.WellFormed :=
  h.wellFormed.of_get? h.get?_eq

theorem IsRoot.names (h : IsRoot before root project) :
    ∀ name ∈ root, PlainName name ∧ name.utf8ByteSize ≤ nameLimit :=
  h.wellFormed.names_of_get? h.get?_eq

section

variable (hroot : IsRoot before root project)
  (hfs : Relabelled before root project (newName rules project made) fs)
  (hc : c.Ready rules project made)

include hroot in
/-- The path that is renamed leads to the entry of the correction. -/
theorem join_source (hjust : c.Justified rules project) :
    Path.join (pathOf root) c.toRenaming.source = pathOf (root ++ c.place) :=
  join_pathOf (fun name hname => (hroot.names name hname).1) (by simp [Correction.place])
    fun name hname => (hjust.plain_place hroot.project_wellFormed name hname).1

include hroot in
/-- The new path leads to the new name in the same directory. -/
theorem join_target (hjust : c.Justified rules project) :
    Path.join (pathOf root) c.toRenaming.target = pathOf (root ++ c.wanted) :=
  join_pathOf (fun name hname => (hroot.names name hname).1) (by simp [Correction.wanted])
    (hjust.plain_wanted hroot.project_wellFormed)

include hfs hc

/-- At its turn, the entry is where it was. -/
theorem shapeAt_place : fs.tree.shapeAt (root ++ c.place) = project.shapeAt c.place := by
  rcases Node.exists_shapeAt hc.justified.isSome_get? with ⟨x, hx⟩
  have hshape := hfs.shape c.place x hx
  rw [hc.relabel_eq (List.prefix_refl _)] at hshape
  rw [hshape, hx]

include hroot

/-- At its turn, the directory of the entry is where it was, and its names lead to it. -/
theorem straight {name : String} (hname : PlainName name) :
    Straight fs (root ++ c.above) name := by
  have habove : ∀ n ∈ c.above, PlainName n ∧ n.utf8ByteSize ≤ nameLimit := fun n hn =>
    hc.justified.plain_place hroot.project_wellFormed n (List.mem_append_left _ hn)
  have hboth : ∀ n ∈ root ++ c.above, PlainName n ∧ n.utf8ByteSize ≤ nameLimit :=
    List.forall_mem_append.2 ⟨hroot.names, habove⟩
  refine ⟨?_, fun n hn => (hboth n hn).2, ?_⟩
  · exact List.forall_mem_append.2 ⟨fun n hn => (hboth n hn).1, by simpa using hname⟩
  · -- The entry is in the directory, which none of the renames has moved.
    rcases Node.exists_shapeAt hc.justified.isSome_get? with ⟨x, hx⟩
    have hdirectory : project.shapeAt c.above = some .directory :=
      Node.shapeAt_directory_of_append (by simp) hx
    have hshape := hfs.shape c.above _ hdirectory
    rwa [hc.relabel_eq (List.prefix_append _ _)] at hshape

/-- A rename that is made moves the entry to its new name. -/
theorem step_at_turn (hrun : perform fs (pathOf root) c.toRenaming = .ok fs') :
    Step fs (.moved ⟨root ++ c.place, root ++ c.wanted⟩) fs' := by
  have hold : PlainName c.old :=
    (hc.justified.plain_place hroot.project_wellFormed c.old (by simp [Correction.place])).1
  have hnew : PlainName c.new :=
    hc.justified.plain_wanted hroot.project_wellFormed c.new (by simp [Correction.wanted])
  rcases rename_of_perform hrun with ⟨hlstat, hrename⟩
  rcases step_of_rename hrename hlstat with ⟨⟨source, target⟩, hsource, htarget, hstep⟩
  rw [join_source hroot hc.justified, Correction.place, ← List.append_assoc] at hsource
  rw [join_target hroot hc.justified, Correction.wanted, ← List.append_assoc] at htarget
  have hsource' := (straight hroot hfs hc hold).eq_of_placeOf? hsource
  have htarget' := (straight hroot hfs hc hnew).eq_of_placeOf? htarget
  simp only at hsource' htarget'
  rw [hsource', htarget', List.append_assoc, List.append_assoc] at hstep
  exact hstep

/-- A rename that is made adds one new name. -/
theorem relabelled_of_perform (hrun : perform fs (pathOf root) c.toRenaming = .ok fs') :
    Relabelled before root project (newName rules project (c.toRenaming.source :: made)) fs' := by
  have hstep := step_at_turn hroot hfs hc hrun
  -- The move of the rename takes the files from the old names to the new ones.
  have himage : ∀ {at' : Location}, (project.get? at').isSome →
      (Effect.moved ⟨root ++ c.place, root ++ c.wanted⟩).image
          (root ++ relabel (newName rules project made) [] at')
        = root ++ relabel (newName rules project (c.toRenaming.source :: made)) [] at' :=
    fun hthere => hc.apply_relabel hroot.project_wellFormed hfs.injective hthere
  refine ⟨?_, ?_, ?_, ?_⟩
  · intro at' x hx
    rw [← himage (Node.isSome_of_shapeAt hx)]
    exact hstep.shapeAt_image (hfs.shape at' x hx)
  · intro at' x hx
    rcases hstep.eq_image_or_made hx with ⟨old, hold, heq⟩ | ⟨node, hnode⟩
    · by_cases hin : root <+: old
      · rcases hin with ⟨below, rfl⟩
        rcases hfs.onto below x hold with ⟨oldest, holdest, rfl⟩
        rw [himage (Node.isSome_of_shapeAt holdest)] at heq
        exact ⟨oldest, holdest, List.append_cancel_left heq⟩
      · -- What lies outside of the root does not get into it.
        have hfixed : ¬ root ++ c.place <+: old := fun hpre =>
          hin ((List.prefix_append _ _).trans hpre)
        rw [Effect.image, apply_eq_self hfixed] at heq
        exact absurd ⟨at', heq.symm⟩ hin
    · cases hnode
  · intro a b ha hb heq
    apply hfs.injective a b ha hb
    have hshown : ∀ {at' : Location}, (project.get? at').isSome →
        (fs.tree.get? (root ++ relabel (newName rules project made) [] at')).isSome := by
      intro at' hthere
      rcases Node.exists_shapeAt hthere with ⟨x, hx⟩
      exact Node.isSome_of_shapeAt (hfs.shape at' x hx)
    exact List.append_cancel_left
      (hstep.image_injective (hshown ha) (hshown hb) (by rw [himage ha, himage hb, heq]))
  · intro at' hout
    rw [hstep.shapeAt_of_not_above]
    · exact hfs.outside at' hout
    · exact fun hpre => hout ((List.prefix_append _ _).trans hpre)
    · exact fun hpre => hout ((List.prefix_append _ _).trans hpre)

end

end

/-! ## All renames -/

theorem madeOf_cons (r : Renaming) (record : FixRecord) (plan : List Renaming)
    (records : List FixRecord) :
    madeOf (r :: plan) (record :: records)
      = if record.outcome.isApplied then r.source :: madeOf plan records
        else madeOf plan records := by
  by_cases happlied : record.outcome.isApplied = true
  · simp [madeOf, happlied]
  · simp [madeOf, happlied]

theorem mem_of_mem_madeOf {plan : List Renaming} {records : List FixRecord} {text : String}
    (h : text ∈ madeOf plan records) : ∃ r ∈ plan, r.source = text := by
  rcases List.mem_map.1 h with ⟨⟨r, record⟩, hmem, rfl⟩
  exact ⟨r, (List.of_mem_zip (List.mem_filter.1 hmem).1).1, rfl⟩

/-- The new names depend on which renames were made, and not on their order. -/
theorem newName_congr {rules : NamingRules} {project : Node} {made made' : List String}
    (h : ∀ text, text ∈ made ↔ text ∈ made') :
    newName rules project made = newName rules project made' := by
  funext place
  simp [newName, h]

section

variable {rules : NamingRules} {before fs : FileSystem} {root : Location} {project : Node}
  {made : List String} {corrections : List Correction}

/-- A path on the way to a later entry is not the path of an earlier one. -/
theorem fresh_of_pairwise (hwell : project.WellFormed) {c c' : Correction}
    (hjust : c.Justified rules project) (hjust' : c'.Justified rules project)
    (hpair : ¬ c.place <+: c'.place) {p : Location} (hp : p ≠ []) (hpre : p <+: c'.place) :
    pathText p ≠ c.toRenaming.source := by
  intro heq
  have hsame : p = c.place := eq_of_pathText hwell hp (by simp [Correction.place]) hpre
    (List.prefix_refl _) hjust'.isSome_get? hjust.isSome_get? heq
  exact hpair (hsame ▸ hpre)

/-- After corrections that come one after the other, the files are relabelled by those made. -/
theorem runAll_relabelled (hroot : IsRoot before root project)
    (hjust : ∀ c ∈ corrections, c.Justified rules project)
    (hpair : corrections.Pairwise fun c c' => ¬ c.place <+: c'.place)
    (hfresh : ∀ c ∈ corrections, ∀ p, p ≠ [] → p <+: c.place → pathText p ∉ made)
    (hfs : Relabelled before root project (newName rules project made) fs) :
    let plan := corrections.map Correction.toRenaming
    let after := Fix.runAll (fix (pathOf root)) fs plan
    Relabelled before root project (newName rules project (madeOf plan after.2 ++ made)) after.1 := by
  -- By induction on the plan, from its beginning; `made` holds what was renamed before.
  induction corrections generalizing fs made with
  | nil => exact hfs
  | cons c rest ih =>
      intro plan after
      have hcons := List.pairwise_cons.1 hpair
      have hjustRest : ∀ c' ∈ rest, c'.Justified rules project :=
        fun c' hc' => hjust c' (List.mem_cons_of_mem _ hc')
      have hready : c.Ready rules project made := ⟨hjust c (by simp), hfresh c (by simp)⟩
      cases hrun : perform fs (pathOf root) c.toRenaming with
      | error e =>
          -- Nothing has changed, and the record says so.
          have hafter := ih hjustRest hcons.2
            (fun c' hc' => hfresh c' (List.mem_cons_of_mem _ hc')) hfs
          simpa [plan, after, Fix.runAll, fix_of_error hrun, madeOf_cons, record,
            FixOutcome.isApplied] using hafter
      | ok fs' =>
          -- The rename that was made is not on the way of those that are still to come.
          have hfresh' : ∀ c' ∈ rest, ∀ p, p ≠ [] → p <+: c'.place →
              pathText p ∉ c.toRenaming.source :: made := by
            intro c' hc' p hp hpre hmem
            rcases List.mem_cons.1 hmem with heq | hmem
            · exact fresh_of_pairwise hroot.project_wellFormed hready.justified (hjustRest c' hc')
                (hcons.1 c' hc') hp hpre heq
            · exact hfresh c' (List.mem_cons_of_mem _ hc') p hp hpre hmem
          have hafter := ih hjustRest hcons.2 hfresh' (relabelled_of_perform hroot hfs hready hrun)
          dsimp only at hafter
          -- The two lists of paths differ only in their order.
          have hnames : ∀ text,
              text ∈ madeOf (rest.map Correction.toRenaming)
                  (Fix.runAll (fix (pathOf root)) fs' (rest.map Correction.toRenaming)).2
                ++ c.toRenaming.source :: made ↔ text ∈ madeOf plan after.2 ++ made := by
            intro text
            simp only [plan, after, List.map_cons, Fix.runAll, fix_of_ok hrun, madeOf_cons, record,
              FixOutcome.isApplied, if_true, List.mem_append, List.mem_cons]
            exact ⟨fun h => by grind, fun h => by grind⟩
          rw [newName_congr hnames] at hafter
          simpa [plan, after, Fix.runAll, fix_of_ok hrun] using hafter

end

/-! ## The whole plan -/

theorem target_fix (root : String) (fs : FileSystem) (r : Renaming) :
    (fix root fs r).2.target = r.source ++ " -> " ++ r.target := by
  cases hrun : perform fs root r with
  | ok made => simp [fix_of_ok hrun, record]
  | error e => simp [fix_of_error hrun, record]

/-- There is one record for each rename of a plan. -/
theorem targets_runAll (root : String) (fs : FileSystem) (plan : List Renaming) :
    (Fix.runAll (fix root) fs plan).2.map FixRecord.target
      = plan.map fun r => r.source ++ " -> " ++ r.target := by
  induction plan generalizing fs with
  | nil => rfl
  | cons r rest ih => simp [Fix.runAll, target_fix, ih]

/-- With renames only, the fixes are the renames of the plan. -/
theorem apply_rename_only (fs : FileSystem) (s : Snapshot) (standards : Standards)
    (formatter : Formatter) (issues : List Issue) :
    Fix.apply fs s standards { rename := true } formatter issues
      = Fix.runAll (fix s.root) fs (plan s issues) := by
  simp [Fix.apply, Fix.runAll]

section

variable {fs : FileSystem} {settings : Settings} {path : String} {s : Snapshot} {root : Location}
  {project : Node}

/-- The plan for a project that a snapshot describes relabels it by the renames that are made. -/
theorem plan_relabels (hroot : IsRoot fs root project) (hdesc : s.Describes root project)
    (standards : Standards) :
    let renames := plan s (Rules.evaluate s standards)
    let after := Fix.runAll (fix s.root) fs renames
    Relabelled fs root project (newName standards.naming project (madeOf renames after.2))
      after.1 := by
  intro renames after
  rcases plan_eq_corrections standards hdesc hroot.project_wellFormed with
    ⟨corrections, hplan, hjust, hpair⟩
  have hrun := runAll_relabelled hroot hjust hpair (by simp)
    (relabelled_refl hroot.get?_eq standards.naming)
  dsimp only at hrun
  rwa [← hplan, List.append_nil, ← hdesc.root_eq] at hrun

/--
The renames relabel a project without links.  Each record belongs to the rename of the plan at its
place.  The location of an entry has, for each prefix whose rename is recorded as made, the name that
the convention asks for, and its old names otherwise.  Under these names there is what was there
before and nothing else, no two entries come to one location, and nothing changes outside the root.
-/
theorem apply_relabels (hfs : fs.tree.WellFormed)
    (hlocate : fs.locate true path = .ok (root, project)) (hlinks : project.LinkFree)
    (hs : Analysis.analyze fs settings path = .ok s) (formatter : Formatter) :
    let issues := Rules.evaluate s settings.standards
    let after := Fix.apply fs s settings.standards { rename := true } formatter issues
    let names := newName settings.standards.naming project (madeOf (plan s issues) after.2)
    (after.2.map FixRecord.target = (plan s issues).map fun r => r.source ++ " -> " ++ r.target) ∧
      (∀ at' x, fs.tree.shapeAt (root ++ at') = some x →
        after.1.tree.shapeAt (root ++ relabel names [] at') = some x) ∧
      (∀ at' x, after.1.tree.shapeAt (root ++ at') = some x →
        ∃ old, fs.tree.shapeAt (root ++ old) = some x ∧ relabel names [] old = at') ∧
      (∀ a b, (fs.tree.get? (root ++ a)).isSome → (fs.tree.get? (root ++ b)).isSome →
        relabel names [] a = relabel names [] b → a = b) ∧
      ∀ at', ¬ root <+: at' → after.1.tree.shapeAt at' = fs.tree.shapeAt at' := by
  intro issues after names
  have hroot : IsRoot fs root project := ⟨hfs, Analysis.get?_of_locate hlocate⟩
  have hdesc : s.Describes root project :=
    Analysis.describes_of_analyze hfs hlocate (.inl hlinks) hs
  have hproject : ∀ at', fs.tree.get? (root ++ at') = project.get? at' := by
    intro at'
    rw [Node.get?_append, hroot.get?_eq]
    rfl
  have hafter : after = Fix.runAll (fix s.root) fs (plan s issues) :=
    apply_rename_only fs s settings.standards formatter issues
  -- All parts are read off what the whole plan does to the tree.
  have hrelabelled : Relabelled fs root project names after.1 := by
    have hplan := plan_relabels hroot hdesc settings.standards
    dsimp only at hplan
    rwa [← hafter] at hplan
  refine ⟨by rw [hafter]; exact targets_runAll _ _ _, ?_, ?_, ?_, hrelabelled.outside⟩
  · intro at' x hx
    rw [Node.shapeAt, hproject] at hx
    exact hrelabelled.shape at' x hx
  · intro at' x hx
    rcases hrelabelled.onto at' x hx with ⟨old, hold, heq⟩
    exact ⟨old, by rw [Node.shapeAt, hproject]; exact hold, heq⟩
  · intro a b ha hb heq
    rw [hproject] at ha hb
    exact hrelabelled.injective a b ha hb heq

end

/-! ## A sample -/

def sampleProject : Node :=
  .directory [("Widgets", .directory [("MyFile.ts", .file ⟨#[]⟩)])]

def sample : FileSystem where
  tree := .directory [("p", sampleProject)]

/-- The default rules, with nothing excluded. -/
def sampleSettings : Settings where
  scanner := { exclude := [] }

def sampleSnapshot : Snapshot :=
  Analysis.describe sampleSettings.standards "/p"
    [.directory ["Widgets"], .file ["Widgets", "MyFile.ts"] ⟨#[]⟩]

theorem wellFormed_sample : sample.tree.WellFormed :=
  have hwidgets : (Node.directory [("MyFile.ts", .file ⟨#[]⟩)]).WellFormed :=
    .cons (by decide) (by decide) (by decide) (.file _) .nil
  have hproject : sampleProject.WellFormed :=
    .cons (by decide) (by decide) (by decide) hwidgets .nil
  .cons (by decide) (by decide) (by decide) hproject .nil

theorem linkFree_sampleProject : sampleProject.LinkFree := by
  refine Node.linkFree_directory ?_
  intro name node h
  obtain ⟨rfl, rfl⟩ : name = "Widgets" ∧ node = .directory [("MyFile.ts", .file ⟨#[]⟩)] := by
    simpa using h
  refine Node.linkFree_directory ?_
  intro name node h
  obtain ⟨rfl, rfl⟩ : name = "MyFile.ts" ∧ node = .file ⟨#[]⟩ := by simpa using h
  exact Node.linkFree_file _

theorem analyze_sample : Analysis.analyze sample sampleSettings "/p" = .ok sampleSnapshot := by
  have hsorted : sample.tree.sorted = sample.tree := by
    simp [sample, sampleProject, Node.sorted, Node.sortedEntries]
  have hwalk : Walk.walk sample ⟨[], []⟩ true "/p"
      = [.directory ["Widgets"], .file ["Widgets", "MyFile.ts"] ⟨#[]⟩] := by
    rw [Walk.walk_of_sorted hsorted rfl]
    rfl
  exact Analysis.analyze_eq_ok wellFormed_sample rfl rfl (by decide) hwalk

theorem apply_relabels_sample :
    let issues := Rules.evaluate sampleSnapshot sampleSettings.standards
    let after := Fix.apply sample sampleSnapshot sampleSettings.standards { rename := true }
      (fun fs _ => (fs, .ok 0)) issues
    let names := newName sampleSettings.standards.naming sampleProject
      (madeOf (plan sampleSnapshot issues) after.2)
    after.1.tree.shapeAt (["p"] ++ relabel names [] ["Widgets", "MyFile.ts"])
      = some (.file ⟨#[]⟩) :=
  (apply_relabels wellFormed_sample rfl linkFree_sampleProject analyze_sample _).2.1
    ["Widgets", "MyFile.ts"] _ rfl

end Renaming
end ProjectConsistency
