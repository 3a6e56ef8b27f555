import ProjectConsistency.Proofs.FileSystem.Shape

/-!
# Leads — where the names of a path lead, as a relation

`FileSystem.follow` computes where names lead, with every failure on the way as an error.  For
reasoning about the ways that end somewhere, this file defines:

* `EntryName` — a name that is looked up in a directory;
* `FileSystem.Leads` — names lead from a directory to a target, through at most `links` links;

and proves that both say the same (`follow_eq_ok_iff`).  A way can be gone in two parts
(`Leads.append`, `Leads.split`), a node that is found is at its location (`Leads.get?_of_found`), and
below a directory that is reached without links the names lead straight down (`Leads.descend`,
`Leads.eq_append`).
-/

namespace ProjectConsistency

/-- A name that is looked up in a directory: it is not one of the dots, and not too long. -/
structure EntryName (name : String) : Prop where
  ne_dot : name ≠ "."
  ne_dots : name ≠ ".."
  short : name.utf8ByteSize ≤ FileSystem.nameLimit

namespace FileSystem

open Node

/-- The names of a path, with a dot for a slash at its end. -/
def stepsOf (path : String) : List String :=
  namesOf path ++ if asksDirectory path then ["."] else []

/-- The directory from which the target of a link leads. -/
def linkStart (at' : Location) (target : String) : Location :=
  if fromTop target then [] else at'

/-- The names lead from a directory to a target, through at most `links` links. -/
inductive Leads (tree : Node) (last : Bool) : Nat → Location → List String → Target → Prop where
  | here {links : Nat} {at' : Location} {node : Node} (hnode : tree.get? at' = some node) :
      Leads tree last links at' [] (.found at' node)
  | dot {links : Nat} {at' : Location} {rest : List String} {t : Target}
      (hdir : tree.shapeAt at' = some .directory) (next : Leads tree last links at' rest t) :
      Leads tree last links at' ("." :: rest) t
  | up {links : Nat} {at' : Location} {rest : List String} {t : Target}
      (hdir : tree.shapeAt at' = some .directory)
      (next : Leads tree last links at'.dropLast rest t) :
      Leads tree last links at' (".." :: rest) t
  | free {links : Nat} {at' : Location} {name : String}
      (hdir : tree.shapeAt at' = some .directory) (hname : EntryName name)
      (hfree : tree.get? (at' ++ [name]) = none) :
      Leads tree last links at' [name] (.free at' name)
  | link {links : Nat} {at' : Location} {name target : String} (hlast : last = false)
      (hname : EntryName name) (hlink : tree.get? (at' ++ [name]) = some (.link target)) :
      Leads tree last links at' [name] (.found (at' ++ [name]) (.link target))
  | jump {links : Nat} {at' : Location} {name target : String} {rest : List String} {t : Target}
      (hgoes : rest ≠ [] ∨ last = true) (hname : EntryName name)
      (hlink : tree.get? (at' ++ [name]) = some (.link target))
      (next : Leads tree last links (linkStart at' target) (stepsOf target ++ rest) t) :
      Leads tree last (links + 1) at' (name :: rest) t
  | step {links : Nat} {at' : Location} {name : String} {node : Node} {rest : List String}
      {t : Target} (hname : EntryName name) (hnode : tree.get? (at' ++ [name]) = some node)
      (hreal : ∀ target, node ≠ .link target)
      (next : Leads tree last links (at' ++ [name]) rest t) :
      Leads tree last links at' (name :: rest) t

/-! ## The relation and the function -/

/-- How a link is followed when `links` links are left. -/
def jumpWith (tree : Node) (last : Bool) : Nat → Location → List String → Except OsError Target
  | 0 => fun _ _ => .error .tooManyLinks
  | links + 1 => follow tree last links

/-- Links are followed one by one, each with one less left. -/
theorem follow_eq_followNames (tree : Node) (last : Bool) (links : Nat) :
    follow tree last links = followNames tree last (jumpWith tree last links) := by
  cases links <;> rfl

section

variable {tree : Node} {last : Bool} {links : Nat} {at' : Location} {rest : List String}

theorem follow_nil : follow tree last links at' []
    = match tree.get? at' with
      | some node => .ok (.found at' node)
      | none => .error .notFound := by
  rw [follow_eq_followNames]
  rfl

theorem follow_dot (hdir : tree.shapeAt at' = some .directory) :
    follow tree last links at' ("." :: rest) = follow tree last links at' rest := by
  rcases shapeAt_eq_directory_iff.1 hdir with ⟨entries, hentries⟩
  simp [follow_eq_followNames, followNames, hentries]

theorem follow_up (hdir : tree.shapeAt at' = some .directory) :
    follow tree last links at' (".." :: rest) = follow tree last links at'.dropLast rest := by
  rcases shapeAt_eq_directory_iff.1 hdir with ⟨entries, hentries⟩
  simp [follow_eq_followNames, followNames, hentries]

theorem follow_entry {name : String} (hdir : tree.shapeAt at' = some .directory)
    (hname : EntryName name) :
    follow tree last links at' (name :: rest)
      = match tree.get? (at' ++ [name]) with
        | none => if rest.isEmpty then .ok (.free at' name) else .error .notFound
        | some (.link target) =>
            if rest.isEmpty && !last then .ok (.found (at' ++ [name]) (.link target))
            else jumpWith tree last links (linkStart at' target) (stepsOf target ++ rest)
        | some _ => follow tree last links (at' ++ [name]) rest := by
  rcases shapeAt_eq_directory_iff.1 hdir with ⟨entries, hentries⟩
  have hshort : ¬ nameLimit < name.utf8ByteSize := Nat.not_lt.2 hname.short
  have hfind := find?_eq_get? hentries name
  cases hnode : tree.get? (at' ++ [name]) with
  | none =>
      simp [follow_eq_followNames, followNames, hentries, hname.ne_dot, hname.ne_dots, hshort, hfind,
        hnode]
  | some node =>
      cases node <;>
        simp [follow_eq_followNames, followNames, hentries, hname.ne_dot, hname.ne_dots, hshort,
          hfind, hnode, linkStart, stepsOf]

/-- Names lead on from directories only. -/
theorem directory_of_follow_cons {name : String} {t : Target}
    (h : follow tree last links at' (name :: rest) = .ok t) :
    tree.shapeAt at' = some .directory := by
  rw [follow_eq_followNames, followNames] at h
  cases hnode : tree.get? at' with
  | none => simp [hnode] at h
  | some node =>
      cases node with
      | file _ => simp [hnode] at h
      | link _ => simp [hnode] at h
      | directory entries => exact shapeAt_of_get? hnode

/-- A name that is followed is a dot, two dots, or looked up. -/
theorem name_cases_of_follow_cons {name : String} {t : Target}
    (h : follow tree last links at' (name :: rest) = .ok t) :
    name = "." ∨ name = ".." ∨ EntryName name := by
  by_cases hdot : name = "."
  · exact .inl hdot
  · by_cases hdots : name = ".."
    · exact .inr (.inl hdots)
    · refine .inr (.inr ⟨hdot, hdots, Nat.not_lt.1 ?_⟩)
      intro hlong
      rcases shapeAt_eq_directory_iff.1 (directory_of_follow_cons h) with ⟨entries, hentries⟩
      simp [follow_eq_followNames, followNames, hentries, hdot, hdots, hlong] at h

end

/-- What is computed is where the names lead. -/
theorem leads_of_follow {tree : Node} {last : Bool} {links : Nat} {at' : Location}
    {names : List String} {t : Target} (h : follow tree last links at' names = .ok t) :
    Leads tree last links at' names t := by
  -- The function goes down on the links first, and between two links on the names.
  induction links generalizing at' names t with
  | zero =>
      exact leads_of_names (fun _ _ _ hjump => by simp [jumpWith] at hjump) h
  | succ links ih =>
      exact leads_of_names (fun _ _ _ hjump => ⟨links, rfl, ih hjump⟩) h
where
  /-- The names are followed one by one; what happens behind a link is given. -/
  leads_of_names {tree : Node} {last : Bool} {links : Nat} {at' : Location} {names : List String}
      {t : Target}
      (jumps : ∀ a ns t, jumpWith tree last links a ns = .ok t →
        ∃ left, links = left + 1 ∧ Leads tree last left a ns t)
      (h : follow tree last links at' names = .ok t) : Leads tree last links at' names t := by
    induction names generalizing at' with
    | nil =>
        rw [follow_nil] at h
        cases hnode : tree.get? at' with
        | none => simp [hnode] at h
        | some node =>
            obtain rfl : Target.found at' node = t := by simpa [hnode] using h
            exact .here hnode
    | cons name rest ih =>
        have hdir := directory_of_follow_cons h
        rcases name_cases_of_follow_cons h with rfl | rfl | hname
        · exact .dot hdir (ih (by rwa [follow_dot hdir] at h))
        · exact .up hdir (ih (by rwa [follow_up hdir] at h))
        · rw [follow_entry hdir hname] at h
          cases hnode : tree.get? (at' ++ [name]) with
          | none =>
              cases rest with
              | nil =>
                  obtain rfl : Target.free at' name = t := by simpa [hnode] using h
                  exact .free hdir hname hnode
              | cons _ _ => simp [hnode] at h
          | some node =>
              cases node with
              | file content => exact .step hname hnode (by simp) (ih (by simpa [hnode] using h))
              | directory entries =>
                  exact .step hname hnode (by simp) (ih (by simpa [hnode] using h))
              | link target =>
                  -- A link is where the names end only if it is the last and is not to be followed.
                  by_cases hends : rest = [] ∧ last = false
                  · obtain ⟨rfl, rfl⟩ := hends
                    obtain rfl : Target.found (at' ++ [name]) (.link target) = t := by
                      simpa [hnode] using h
                    exact .link rfl hname hnode
                  · have hgoes : rest ≠ [] ∨ last = true := by
                      cases last <;> simp_all
                    have hjump : jumpWith tree last links (linkStart at' target)
                        (stepsOf target ++ rest) = .ok t := by
                      cases hgoes with
                      | inl hrest => simpa [hnode, hrest] using h
                      | inr hlast => simpa [hnode, hlast] using h
                    rcases jumps _ _ _ hjump with ⟨left, rfl, next⟩
                    exact .jump hgoes hname hnode next

/-- Where the names lead is what is computed. -/
theorem follow_of_leads {tree : Node} {last : Bool} {links : Nat} {at' : Location}
    {names : List String} {t : Target} (h : Leads tree last links at' names t) :
    follow tree last links at' names = .ok t := by
  -- Each constructor is one equation of the function; where the directory is not given, it is the one
  -- in which the entry lies.
  induction h with
  | here hnode => rw [follow_nil, hnode]
  | dot hdir _ ih => rw [follow_dot hdir, ih]
  | up hdir _ ih => rw [follow_up hdir, ih]
  | free hdir hname hfree =>
      rw [follow_entry hdir hname, hfree]
      rfl
  | link hlast hname hlink =>
      have hdir := shapeAt_directory_of_append (by simp) (shapeAt_of_get? hlink)
      rw [follow_entry hdir hname, hlink, hlast]
      rfl
  | jump hgoes hname hlink _ ih =>
      have hdir := shapeAt_directory_of_append (by simp) (shapeAt_of_get? hlink)
      rw [follow_entry hdir hname, hlink]
      cases hgoes with
      | inl hrest => simpa [hrest, jumpWith] using ih
      | inr hlast => simpa [hlast, jumpWith] using ih
  | step hname hnode hreal _ ih =>
      have hdir := shapeAt_directory_of_append (by simp) (shapeAt_of_get? hnode)
      rw [follow_entry hdir hname, hnode, ← ih]
      rename_i node _ _ _
      cases node with
      | file _ => rfl
      | directory _ => rfl
      | link target => exact absurd rfl (hreal target)

/-- The relation and the function say the same. -/
theorem follow_eq_ok_iff {tree : Node} {last : Bool} {links : Nat} {at' : Location}
    {names : List String} {t : Target} :
    follow tree last links at' names = .ok t ↔ Leads tree last links at' names t :=
  ⟨leads_of_follow, follow_of_leads⟩

/-! ## Ways in parts -/

namespace Leads

variable {tree : Node} {last : Bool} {links : Nat} {at' : Location} {names : List String}
  {t : Target}

/-- With more links left, names lead to the same. -/
theorem mono {more : Nat} (h : Leads tree last links at' names t) (hle : links ≤ more) :
    Leads tree last more at' names t := by
  induction h generalizing more with
  | here hnode => exact .here hnode
  | dot hdir _ ih => exact .dot hdir (ih hle)
  | up hdir _ ih => exact .up hdir (ih hle)
  | free hdir hname hfree => exact .free hdir hname hfree
  | link hlast hname hlink => exact .link hlast hname hlink
  | jump hgoes hname hlink _ ih =>
      obtain ⟨left, rfl⟩ : ∃ left, more = left + 1 := ⟨more - 1, by omega⟩
      exact .jump hgoes hname hlink (ih (by omega))
  | step hname hnode hreal _ ih => exact .step hname hnode hreal (ih hle)

/-- After a way that ends at a node, more names lead on from there. -/
theorem append {d : Location} {node : Node} {more : List String}
    (first : Leads tree true links at' names (.found d node)) (hmore : more ≠ [])
    (second : Leads tree last 0 d more t) : Leads tree last links at' (names ++ more) t := by
  -- The induction is on the first way, whose end is fixed.
  generalize htarget : Target.found d node = found at first
  induction first with
  | here hnode =>
      cases htarget
      -- The second way leads through no link, so it needs none of those that are left.
      exact second.mono (Nat.zero_le _)
  | dot hdir _ ih => exact .dot hdir (ih htarget)
  | up hdir _ ih => exact .up hdir (ih htarget)
  | free _ _ _ => cases htarget
  | link hlast _ _ => cases hlast
  | jump _ hname hlink _ ih =>
      have hnext := ih htarget
      rw [List.append_assoc] at hnext
      exact .jump (.inl (by simp [hmore])) hname hlink hnext
  | step hname hnode hreal _ ih => exact .step hname hnode hreal (ih htarget)

/-- More names are followed from where a way ends, through the links that are left then. -/
theorem follow_append (last : Bool) {d : Location} {node : Node}
    (first : Leads tree true links at' names (.found d node)) :
    ∃ left, left ≤ links ∧ ∀ more, more ≠ [] →
      follow tree last links at' (names ++ more) = follow tree last left d more := by
  generalize htarget : Target.found d node = found at first
  -- On the way; a followed link uses up one of the links left.
  induction first with
  | @here links _ _ _ =>
      cases htarget
      exact ⟨links, Nat.le_refl _, fun _ _ => rfl⟩
  | dot hdir _ ih =>
      rcases ih htarget with ⟨left, hleft, hrest⟩
      exact ⟨left, hleft, fun more hmore => (follow_dot hdir).trans (hrest more hmore)⟩
  | up hdir _ ih =>
      rcases ih htarget with ⟨left, hleft, hrest⟩
      exact ⟨left, hleft, fun more hmore => (follow_up hdir).trans (hrest more hmore)⟩
  | free _ _ _ => cases htarget
  | link hlast _ _ => cases hlast
  | jump _ hname hlink _ ih =>
      rcases ih htarget with ⟨left, hleft, hrest⟩
      refine ⟨left, by omega, fun more hmore => ?_⟩
      have hdir := shapeAt_directory_of_append (by simp) (shapeAt_of_get? hlink)
      rw [← hrest more hmore, List.cons_append, follow_entry hdir hname, hlink, List.append_assoc]
      simp [hmore, jumpWith]
  | @step links _ _ node _ _ hname hnode hreal _ ih =>
      rcases ih htarget with ⟨left, hleft, hrest⟩
      refine ⟨left, hleft, fun more hmore => ?_⟩
      have hdir := shapeAt_directory_of_append (by simp) (shapeAt_of_get? hnode)
      rw [← hrest more hmore, List.cons_append, follow_entry hdir hname, hnode]
      cases node with
      | file _ => rfl
      | directory _ => rfl
      | link target => exact absurd rfl (hreal target)

/-- A node that is found is at its location. -/
theorem get?_of_found {d : Location} {node : Node}
    (h : Leads tree last links at' names (.found d node)) : tree.get? d = some node := by
  generalize htarget : Target.found d node = found at h
  induction h with
  | here hnode =>
      cases htarget
      exact hnode
  | dot _ _ ih => exact ih htarget
  | up _ _ ih => exact ih htarget
  | free _ _ _ => cases htarget
  | link _ _ hlink =>
      cases htarget
      exact hlink
  | jump _ _ _ _ ih => exact ih htarget
  | step _ _ _ _ ih => exact ih htarget

/-- A name that is free is in a directory, and nothing is at it. -/
theorem get?_of_free {directory : Location} {name : String}
    (h : Leads tree last links at' names (.free directory name)) :
    tree.shapeAt directory = some .directory ∧ tree.get? (directory ++ [name]) = none := by
  generalize htarget : Target.free directory name = free at h
  induction h with
  | here _ => cases htarget
  | dot _ _ ih => exact ih htarget
  | up _ _ ih => exact ih htarget
  | free hdir _ hfree =>
      cases htarget
      exact ⟨hdir, hfree⟩
  | link _ _ _ => cases htarget
  | jump _ _ _ _ ih => exact ih htarget
  | step _ _ _ _ ih => exact ih htarget

/-- The same names lead to one target only, however many links may be followed. -/
theorem target_unique {more : Nat} {t' : Target} (h : Leads tree last links at' names t)
    (h' : Leads tree last more at' names t') : t = t' := by
  have hmost := follow_of_leads (h.mono (Nat.le_max_left links more))
  have hmost' := follow_of_leads (h'.mono (Nat.le_max_right links more))
  exact Except.ok.inj (hmost.symm.trans hmost')

/-- The names of a directory lead straight down to it, and on from there. -/
theorem descend {a b rest : List String} (hnames : ∀ name ∈ b, EntryName name)
    (hdir : tree.shapeAt (a ++ b) = some .directory)
    (next : Leads tree last links (a ++ b) rest t) : Leads tree last links a (b ++ rest) t := by
  induction b generalizing a with
  | nil => simpa using next
  | cons name b ih =>
      have hsplit : a ++ name :: b = a ++ [name] ++ b := by simp
      rw [hsplit] at hdir next
      -- There is a directory under the first name, as something is below it or it is the last.
      have hnode : tree.shapeAt (a ++ [name]) = some .directory := by
        cases b with
        | nil => simpa using hdir
        | cons _ _ => exact shapeAt_directory_of_append (by simp) hdir
      rcases shapeAt_eq_directory_iff.1 hnode with ⟨entries, hentries⟩
      exact .step (hnames name (by simp)) hentries (by simp)
        (ih (fun n hn => hnames n (by simp [hn])) hdir next)

/-- A way along more names leads to a node along the first of them, and on from there. -/
theorem split {more : List String} (hmore : more ≠ [])
    (h : Leads tree last links at' (names ++ more) t) :
    ∃ d node left, left ≤ links ∧ Leads tree true links at' names (.found d node) ∧
      Leads tree last left d more t := by
  generalize hsteps : names ++ more = steps at h
  -- Where no name is left of the first part, the rest of the way is the second part.
  have all : ∀ {links : Nat} {at' : Location} {steps : List String} {t : Target},
      tree.shapeAt at' = some .directory → Leads tree last links at' steps t → [] ++ more = steps →
      ∃ d node left, left ≤ links ∧ Leads tree true links at' [] (.found d node) ∧
        Leads tree last left d more t := by
    rintro links at' steps t hdir h rfl
    rcases shapeAt_eq_directory_iff.1 hdir with ⟨entries, hnode⟩
    exact ⟨at', _, links, Nat.le_refl _, .here hnode, h⟩
  induction h generalizing names with
  | here _ => simp [hmore] at hsteps
  | dot hdir next ih =>
      cases names with
      | nil => exact all hdir (.dot hdir next) hsteps
      | cons name names =>
          obtain ⟨rfl, hrest⟩ := List.cons.inj hsteps
          rcases ih hrest with ⟨d, node, left, hleft, hfirst, hsecond⟩
          exact ⟨d, node, left, hleft, .dot hdir hfirst, hsecond⟩
  | up hdir next ih =>
      cases names with
      | nil => exact all hdir (.up hdir next) hsteps
      | cons name names =>
          obtain ⟨rfl, hrest⟩ := List.cons.inj hsteps
          rcases ih hrest with ⟨d, node, left, hleft, hfirst, hsecond⟩
          exact ⟨d, node, left, hleft, .up hdir hfirst, hsecond⟩
  | free hdir hname hfree =>
      cases names with
      | nil => exact all hdir (.free hdir hname hfree) hsteps
      | cons _ names => simp [hmore] at hsteps
  | link hlast hname hlink =>
      cases names with
      | nil =>
          exact all (Node.shapeAt_directory_of_append (by simp) (shapeAt_of_get? hlink))
            (.link hlast hname hlink) hsteps
      | cons _ names => simp [hmore] at hsteps
  | jump hgoes hname hlink next ih =>
      cases names with
      | nil =>
          exact all (Node.shapeAt_directory_of_append (by simp) (shapeAt_of_get? hlink))
            (.jump hgoes hname hlink next) hsteps
      | cons name names =>
          obtain ⟨rfl, rfl⟩ := List.cons.inj hsteps
          rcases ih (List.append_assoc _ _ _) with ⟨d, node, left, hleft, hfirst, hsecond⟩
          exact ⟨d, node, left, by omega, .jump (.inr rfl) hname hlink hfirst, hsecond⟩
  | step hname hnode hreal next ih =>
      cases names with
      | nil =>
          exact all (Node.shapeAt_directory_of_append (by simp) (shapeAt_of_get? hnode))
            (.step hname hnode hreal next) hsteps
      | cons name names =>
          obtain ⟨rfl, hrest⟩ := List.cons.inj hsteps
          rcases ih hrest with ⟨d, node, left, hleft, hfirst, hsecond⟩
          exact ⟨d, node, left, hleft, .step hname hnode hreal hfirst, hsecond⟩

/-- The first names on the way to a directory lead to a directory. -/
theorem directory_of_append {d : Location} {entries : List (String × Node)} {more : List String}
    (h : Leads tree true links at' (names ++ more) (.found d (.directory entries))) :
    ∃ d' inside, Leads tree true links at' names (.found d' (.directory inside)) := by
  cases more with
  | nil => exact ⟨d, entries, by rwa [List.append_nil] at h⟩
  | cons _ _ =>
      rcases h.split (by simp) with ⟨d', node, _, _, hfirst, hlast⟩
      rcases shapeAt_eq_directory_iff.1 (directory_of_follow_cons (follow_of_leads hlast)) with
        ⟨inside, hinside⟩
      obtain rfl : node = .directory inside := by
        simpa using hfirst.get?_of_found.symm.trans hinside
      exact ⟨d', inside, hfirst⟩

/-- The names of a directory lead to it from the top. -/
theorem from_top {entries : List (String × Node)} (hnames : ∀ name ∈ names, EntryName name)
    (hnode : tree.get? names = some (.directory entries)) :
    Leads tree last links [] names (.found names (.directory entries)) := by
  have hdir : tree.shapeAt ([] ++ names) = some .directory := shapeAt_of_get? hnode
  have hway : Leads tree last links [] (names ++ []) (.found names (.directory entries)) :=
    descend hnames hdir (.here hnode)
  rwa [List.append_nil] at hway

/-- Where the first names are known to lead to a node, the others lead on from there. -/
theorem of_append {r d : Location} {found node : Node} {more : List String}
    (first : Leads tree true links at' names (.found r found))
    (h : Leads tree true links at' (names ++ more) (.found d node)) :
    ∃ left, left ≤ links ∧ Leads tree true left r more (.found d node) := by
  by_cases hmore : more = []
  · subst hmore
    rw [List.append_nil] at h
    cases (follow_of_leads h).symm.trans (follow_of_leads first)
    exact ⟨links, Nat.le_refl _, .here h.get?_of_found⟩
  · rcases h.split hmore with ⟨r', found', left, hleft, hfirst, hsecond⟩
    cases (follow_of_leads hfirst).symm.trans (follow_of_leads first)
    exact ⟨left, hleft, hsecond⟩

/-- Names that meet no link lead straight down. -/
theorem eq_append {d : Location} {node : Node}
    (hnames : ∀ name ∈ names, name ≠ "." ∧ name ≠ "..")
    (hlinks : ∀ above, above ≠ [] → above <+: names → ∀ target,
      tree.shapeAt (at' ++ above) ≠ some (.link target))
    (h : Leads tree last links at' names (.found d node)) : d = at' ++ names := by
  generalize htarget : Target.found d node = found at h
  induction h with
  | here _ =>
      cases htarget
      simp
  | dot _ _ _ => exact absurd rfl (hnames "." (by simp)).1
  | up _ _ _ => exact absurd rfl (hnames ".." (by simp)).2
  | free _ _ _ => cases htarget
  | @link _ at' name target _ _ hlink =>
      exact absurd (shapeAt_of_get? hlink) (hlinks [name] (by simp) List.prefix_rfl target)
  | @jump _ at' name target rest _ _ _ hlink _ _ =>
      exact absurd (shapeAt_of_get? hlink) (hlinks [name] (by simp) ⟨rest, rfl⟩ target)
  | @step _ at' name _ rest _ _ _ _ _ ih =>
      have hrest : ∀ above, above ≠ [] → above <+: rest → ∀ target,
          tree.shapeAt (at' ++ [name] ++ above) ≠ some (.link target) := by
        rintro above _ ⟨below, rfl⟩ target
        simpa using hlinks (name :: above) (by simp) ⟨below, rfl⟩ target
      rw [ih (fun n hn => hnames n (by simp [hn])) hrest htarget, List.append_assoc]
      rfl

end Leads

end FileSystem
end ProjectConsistency
