import ProjectConsistency.Proofs.Assoc.Ascending
import ProjectConsistency.Toml.Document

/-!
# Ordered — the tables of a TOML document have each key once

This file defines:

* `Toml.Ordered` — all tables in a value are ascending;
* `Toml.Inherited` — a property that a value has if its parts have it, as `Ordered` is;
* `Toml.Hereditary` — moreover the parts of a value have it if the value has;
* `Toml.Draft.Holds` — such a property for a table while its document is read;
* `Toml.Yields` — a reader of values reads values with the property only.

Each statement of a document sets one entry on the way from the root to the table it concerns, so
the tables stay ascending and all values in them keep the property (`holds_assign`,
`holds_descend`).  Values are read by induction on the levels of lists and inline tables
(`yields_value`), the document by induction on its lines (`of_document`).
-/

namespace ProjectConsistency

namespace Toml

/-- All tables in the value are ascending. -/
inductive Ordered : Toml → Prop where
  | string (s : String) : Ordered (.string s)
  | integer (n : Int) : Ordered (.integer n)
  | float (x : Double) : Ordered (.float x)
  | boolean (b : Bool) : Ordered (.boolean b)
  | datetime (text : String) : Ordered (.datetime text)
  | array {items : List Toml} (each : ∀ x ∈ items, Ordered x) : Ordered (.array items)
  | table {entries : List (String × Toml)} (ascending : Assoc.Ascending entries)
      (value : ∀ key x, (key, x) ∈ entries → Ordered x) : Ordered (.table entries)

/-- A table is ordered when its keys ascend and its values are ordered. -/
theorem ordered_table_iff {entries : List (String × Toml)} :
    (Toml.table entries).Ordered ↔ Assoc.Each Ordered entries := by
  constructor
  · intro h
    cases h with
    | table ascending value => exact ⟨ascending, value⟩
  · intro h
    exact .table h.ascending h.value

/-- Values in an ordered table are ordered. -/
theorem Ordered.of_find? {value x : Toml} {key : String} (h : value.Ordered)
    (hfind : value.find? key = some x) : x.Ordered := by
  cases h with
  | table ascending each => exact each key x (Assoc.mem_of_find? hfind)
  | _ => cases hfind

/-- A property that a value has if its parts have it.  Integers fit 64 bits, and tables are
ascending. -/
structure Inherited (P : Toml → Prop) : Prop where
  string : ∀ s, P (.string s)
  integer : ∀ n, n ≤ 9223372036854775807 → P (.integer n)
  float : ∀ x, P (.float x)
  boolean : ∀ b, P (.boolean b)
  datetime : ∀ text, P (.datetime text)
  array : ∀ items, (∀ x ∈ items, P x) → P (.array items)
  table : ∀ entries, Assoc.Each P entries → P (.table entries)

theorem inherited_ordered : Inherited Ordered where
  string := .string
  integer n _ := .integer n
  float := .float
  boolean := .boolean
  datetime := .datetime
  array _ := .array
  table _ := ordered_table_iff.2

/-- A property that a value has just if its parts have it. -/
structure Hereditary (P : Toml → Prop) : Prop extends Inherited P where
  items : ∀ {items}, P (.array items) → ∀ x ∈ items, P x
  entries : ∀ {entries}, P (.table entries) → Assoc.Each P entries

theorem hereditary_ordered : Hereditary Ordered where
  toInherited := inherited_ordered
  items h := by
    cases h with
    | array each => exact each
  entries h := ordered_table_iff.1 h

variable {P : Toml → Prop}

namespace Draft

/-- All tables of the draft are ascending, and the values in them have a property. -/
inductive Holds (P : Toml → Prop) : Draft → Prop where
  | finished {value : Toml} (holds : P value) : Holds P (.finished value)
  | table {origin : Origin} {entries : Entries} (ascending : Assoc.Ascending entries)
      (value : ∀ key x, (key, x) ∈ entries → Holds P x) : Holds P (.table origin entries)
  | tables {earlier : List Toml} {entries : Entries} (each : ∀ x ∈ earlier, P x)
      (ascending : Assoc.Ascending entries)
      (value : ∀ key x, (key, x) ∈ entries → Holds P x) : Holds P (.tables earlier entries)

theorem closeEntries_eq (entries : Entries) :
    closeEntries entries = Assoc.mapValues close entries := by
  induction entries with
  | nil => rfl
  | cons entry rest ih =>
      rw [closeEntries, ih]
      rfl

/-- The keys of a table stay as they are when it is closed. -/
theorem each_closeEntries {entries : Entries} (hascending : Assoc.Ascending entries)
    (hvalue : ∀ key x, (key, x) ∈ entries → P (close x)) :
    Assoc.Each P (closeEntries entries) := by
  rw [closeEntries_eq]
  refine ⟨?_, ?_⟩
  · rwa [Assoc.Ascending, Assoc.keys_mapValues]
  · intro key x hmem
    rcases List.mem_map.1 hmem with ⟨⟨other, d⟩, hd, heq⟩
    cases heq
    exact hvalue _ d hd

/-- A draft whose values have an inherited property is closed to a value that has it. -/
theorem Holds.close (hP : Inherited P) {d : Draft} (h : d.Holds P) : P d.close := by
  induction h with
  | finished holds => exact holds
  | table ascending _ ih => exact hP.table _ (each_closeEntries ascending ih)
  | tables each ascending _ ih =>
      refine hP.array _ ?_
      intro x hx
      rcases List.mem_append.1 hx with hx | hx
      · exact each x hx
      · rw [List.mem_singleton.1 hx]
        exact hP.table _ (each_closeEntries ascending ih)

theorem of_closeEntries (hP : Inherited P) {entries : Entries}
    (h : Assoc.Each (Holds P) entries) : P (.table (closeEntries entries)) :=
  hP.table _ (each_closeEntries h.ascending fun key x hmem => (h.value key x hmem).close hP)

/-- A dotted key with a value that has the property keeps it for its table. -/
theorem holds_assign {dotted : Bool} {origin : Origin} {value : Toml} {path : List String}
    {entries entries' : Entries} (hvalue : P value) (h : Assoc.Each (Holds P) entries)
    (hassign : assign dotted origin value path entries = some entries') :
    Assoc.Each (Holds P) entries' := by
  -- Each key of the chain sets its entry to the table that the rest of the chain leaves.
  fun_induction assign dotted origin value path entries generalizing entries' with
  | case1 => cases hassign
  | case2 =>
      cases hassign
      exact h.insert (.finished hvalue) _
  | case3 => cases hassign
  | case4 _ _ _ _ _ _ _ ih =>
      rcases Option.bind_eq_some_iff.1 hassign with ⟨inner, hinner, heq⟩
      cases heq
      have hbelow := ih .nil hinner
      exact h.insert (.table hbelow.ascending hbelow.value) _
  | case5 => cases hassign
  | case6 _ _ _ _ _ _ _ _ hfind _ ih =>
      rcases Option.bind_eq_some_iff.1 hassign with ⟨inner, hinner, heq⟩
      cases heq
      cases h.of_find? hfind with
      | table ascending each =>
          have hbelow := ih ⟨ascending, each⟩ hinner
          exact h.insert (.table hbelow.ascending hbelow.value) _
  | case7 _ _ _ _ _ _ _ _ hfind ih =>
      rcases Option.bind_eq_some_iff.1 hassign with ⟨inner, hinner, heq⟩
      cases heq
      cases h.of_find? hfind with
      | tables earlier ascending each =>
          have hbelow := ih ⟨ascending, each⟩ hinner
          exact h.insert (.tables earlier hbelow.ascending hbelow.value) _
  | case8 => cases hassign

/-- A change of the table that a header leads to keeps the property for all tables if it keeps it
for that one. -/
theorem holds_descend {change : Entries → Option Entries} {path : List String}
    (hchange : ∀ entries entries', Assoc.Each (Holds P) entries →
      change entries = some entries' → Assoc.Each (Holds P) entries')
    {entries entries' : Entries} (h : Assoc.Each (Holds P) entries)
    (hdescend : descend change path entries = some entries') :
    Assoc.Each (Holds P) entries' := by
  fun_induction descend change path entries generalizing entries' with
  | case1 => exact hchange _ _ h hdescend
  | case2 _ _ _ _ ih =>
      rcases Option.bind_eq_some_iff.1 hdescend with ⟨inner, hinner, heq⟩
      cases heq
      have hbelow := ih .nil hinner
      exact h.insert (.table hbelow.ascending hbelow.value) _
  | case3 _ _ _ _ _ hfind ih =>
      rcases Option.bind_eq_some_iff.1 hdescend with ⟨inner, hinner, heq⟩
      cases heq
      cases h.of_find? hfind with
      | table ascending each =>
          have hbelow := ih ⟨ascending, each⟩ hinner
          exact h.insert (.table hbelow.ascending hbelow.value) _
  | case4 _ _ _ _ _ hfind ih =>
      rcases Option.bind_eq_some_iff.1 hdescend with ⟨inner, hinner, heq⟩
      cases heq
      cases h.of_find? hfind with
      | tables earlier ascending each =>
          have hbelow := ih ⟨ascending, each⟩ hinner
          exact h.insert (.tables earlier hbelow.ascending hbelow.value) _
  | case5 => cases hdescend

/-- Opening a table sets no value that was not there. -/
theorem holds_openTable {key : String} {entries entries' : Entries}
    (h : Assoc.Each (Holds P) entries) (hopen : openTable key entries = some entries') :
    Assoc.Each (Holds P) entries' := by
  fun_cases openTable key entries with
  | case1 hfind =>
      simp only [openTable, hfind] at hopen
      cases hopen
      exact h.insert (.table Assoc.ascending_nil (by simp)) _
  | case2 inner hfind =>
      simp only [openTable, hfind] at hopen
      cases hopen
      cases h.of_find? hfind with
      | table ascending each => exact h.insert (.table ascending each) _
  | case3 => simp_all [openTable]

/-- Opening a further table of an array keeps what holds of the values. -/
theorem holds_openItem (hP : Inherited P) {key : String} {entries entries' : Entries}
    (h : Assoc.Each (Holds P) entries) (hopen : openItem key entries = some entries') :
    Assoc.Each (Holds P) entries' := by
  fun_cases openItem key entries with
  | case1 hfind =>
      simp only [openItem, hfind] at hopen
      cases hopen
      exact h.insert (.tables (by simp) Assoc.ascending_nil (by simp)) _
  | case2 earlier inner hfind =>
      simp only [openItem, hfind] at hopen
      cases hopen
      cases h.of_find? hfind with
      | tables each ascending value =>
          refine h.insert (.tables ?_ Assoc.ascending_nil (by simp)) _
          intro x hx
          rcases List.mem_append.1 hx with hx | hx
          · exact each x hx
          · rw [List.mem_singleton.1 hx]
            exact of_closeEntries hP ⟨ascending, value⟩
  | case3 => simp_all [openItem]

/-- Opening a header keeps what holds of the values, along its whole path. -/
theorem holds_openHeader (hP : Inherited P) {isItem : Bool} {header : List String}
    {root root' : Entries} (h : Assoc.Each (Holds P) root)
    (hopen : openHeader isItem header root = some root') :
    Assoc.Each (Holds P) root' := by
  cases hlast : header.getLast? with
  | none => simp [openHeader, hlast] at hopen
  | some key =>
      simp only [openHeader, hlast] at hopen
      cases isItem with
      | true => exact holds_descend (fun _ _ => holds_openItem hP) h hopen
      | false => exact holds_descend (fun _ _ => holds_openTable) h hopen

end Draft

/-! ### Values -/

def Yields (P : Toml → Prop) (item : List Char → Reading Toml) : Prop :=
  ∀ cs x rest, item cs = some (x, rest) → P x

/-- An assignment sets a value that its reader yields. -/
theorem of_assignment {item : List Char → Reading Toml} (hitem : Yields P item)
    {cs rest : List Char} {path : List String} {x : Toml}
    (h : assignment? item cs = some ((path, x), rest)) : P x := by
  rcases Option.bind_eq_some_iff.1 h with ⟨⟨keys, after⟩, _, h⟩
  dsimp only at h
  split at h
  · rcases Option.bind_eq_some_iff.1 h with ⟨⟨y, last⟩, hy, h⟩
    cases h
    exact hitem _ _ _ hy
  · cases h

section

variable (hP : Inherited P)

include hP

theorem of_fit {n : Int} {x : Toml} (h : fit? n = some x) : P x := by
  by_cases hfit : -9223372036854775808 ≤ n ∧ n ≤ 9223372036854775807
  · simp only [fit?, hfit] at h
    cases h
    exact hP.integer n hfit.2
  · simp [fit?, hfit] at h

theorem of_integer {cs : List Char} {x : Toml} (h : integer? cs = some x) : P x := by
  have hdigits : ∀ {base : Nat} {digits : List Char} {f : Nat → Int},
      ((allDigits? base digits).bind fun n => fit? (f n)) = some x → P x := by
    intro base digits f hsome
    rcases Option.bind_eq_some_iff.1 hsome with ⟨n, _, hfit⟩
    exact of_fit hP hfit
  revert h
  fun_cases integer? cs with
  | case1 => exact hdigits
  | case2 => exact hdigits
  | case3 => exact hdigits
  | case4 =>
      intro h
      split_ifs at h
      exact hdigits h
  | case5 =>
      intro h
      split_ifs at h
      exact hdigits h

theorem of_datetime {cs : List Char} {x : Toml} (h : datetime? cs = some x) : P x := by
  rw [datetime?] at h
  split at h
  · cases h
    exact hP.datetime _
  · split at h
    · rcases Option.bind_eq_some_iff.1 h with ⟨_, _, h⟩
      rcases Option.bind_eq_some_iff.1 h with ⟨_, _, h⟩
      cases h
      exact hP.datetime _
    · cases h
  · split at h
    · cases h
      exact hP.datetime _
    · cases h

/-- Every scalar has an inherited property. -/
theorem of_scalarValue {cs : List Char} {x : Toml} (h : scalarValue? cs = some x) :
    P x := by
  by_cases htrue : cs = ['t', 'r', 'u', 'e']
  · rw [scalarValue?, if_pos htrue] at h
    cases h
    exact hP.boolean _
  · by_cases hfalse : cs = ['f', 'a', 'l', 's', 'e']
    · rw [scalarValue?, if_neg htrue, if_pos hfalse] at h
      cases h
      exact hP.boolean _
    · rw [scalarValue?, if_neg htrue, if_neg hfalse, Option.or_eq_some_iff, Option.or_eq_some_iff] at h
      rcases h with h | ⟨_, h | ⟨_, h⟩⟩
      · exact of_integer hP h
      · rcases Option.map_eq_some_iff.1 h with ⟨y, _, rfl⟩
        exact hP.float y
      · exact of_datetime hP h

theorem yields_bare : Yields P bare? := by
  intro cs x rest h
  have hscalar : ∀ {text more : List Char},
      ((scalarValue? text).map ((·, more))) = some (x, rest) → P x := by
    intro text more hread
    rcases Option.map_eq_some_iff.1 hread with ⟨y, hy, heq⟩
    cases heq
    exact of_scalarValue hP hy
  simp only [bare?] at h
  split at h
  · split at h
    · exact hscalar h
    · exact hscalar h
  · exact hscalar h

/-- Induction on the fuel of the item loop. -/
theorem of_items {item : List Char → Reading Toml} (hitem : Yields P item) {fuel : Nat}
    {back : List Toml} {cs rest : List Char} {x : Toml} (hback : ∀ y ∈ back, P y)
    (h : itemsFrom item back fuel cs = some (x, rest)) : P x := by
  induction fuel generalizing back cs with
  | zero => cases h
  | succ fuel ih =>
      rcases Option.bind_eq_some_iff.1 h with ⟨more, hmore, h⟩
      split at h
      · cases h
        refine hP.array _ ?_
        intro y hy
        exact hback y (List.mem_reverse.1 hy)
      · rcases Option.bind_eq_some_iff.1 h with ⟨⟨y, after⟩, hy, h⟩
        have hback' : ∀ z ∈ y :: back, P z :=
          List.forall_mem_cons.2 ⟨hitem _ _ _ hy, hback⟩
        rcases Option.bind_eq_some_iff.1 h with ⟨next, hnext, h⟩
        split at h
        · exact ih hback' h
        · cases h
          refine hP.array _ ?_
          intro z hz
          exact hback' z (List.mem_reverse.1 hz)
        · cases h

/-- Induction on the fuel of the member loop. -/
theorem of_members {item : List Char → Reading Toml} (hitem : Yields P item) {fuel : Nat}
    {entries : Draft.Entries} {cs rest : List Char} {x : Toml}
    (hentries : Assoc.Each (Draft.Holds P) entries)
    (h : membersFrom item entries fuel cs = some (x, rest)) : P x := by
  induction fuel generalizing entries cs with
  | zero => cases h
  | succ fuel ih =>
      rcases Option.bind_eq_some_iff.1 h with ⟨more, hmore, h⟩
      split at h
      · cases h
        exact Draft.of_closeEntries hP hentries
      · rcases Option.bind_eq_some_iff.1 h with ⟨⟨⟨path, y⟩, after⟩, hy, h⟩
        rcases Option.bind_eq_some_iff.1 h with ⟨entries', hassign, h⟩
        have hentries' : Assoc.Each (Draft.Holds P) entries' :=
          Draft.holds_assign (of_assignment hitem hy) hentries hassign
        rcases Option.bind_eq_some_iff.1 h with ⟨next, hnext, h⟩
        split at h
        · exact ih hentries' h
        · cases h
          exact Draft.of_closeEntries hP hentries'
        · cases h

/-- A value has the property if the values with one level less have. -/
theorem yields_of_below {fuel levels : Nat}
    (hbelow : ∀ below, levels = below + 1 → Yields P (value? fuel below)) :
    Yields P (value? fuel levels) := by
  intro cs x rest h
  have hquoted : ∀ {cs : List Char}, ((quoted? true cs).map
      fun r => (Toml.string (String.ofList r.1), r.2)) = some (x, rest) → P x := by
    intro cs hread
    rcases Option.map_eq_some_iff.1 hread with ⟨_, _, heq⟩
    cases heq
    exact hP.string _
  rw [value?.eq_def] at h
  split at h
  · split at h
    · cases h
    · exact of_items hP (hbelow _ rfl) (by simp) h
  · split at h
    · cases h
    · exact of_members hP (hbelow _ rfl) .nil h
  · exact hquoted h
  · exact hquoted h
  · exact yields_bare hP _ _ _ h

/-- Every value the reader yields has an inherited property, at any fuel and depth. -/
theorem yields_value (fuel levels : Nat) : Yields P (value? fuel levels) := by
  induction levels with
  | zero => exact yields_of_below hP (fun below h => nomatch h)
  | succ levels ih =>
      refine yields_of_below hP ?_
      intro below h
      exact Nat.succ.inj h ▸ ih

/-! ### Lines -/

theorem holds_headerLine {root root' : Draft.Entries} {cs rest : List Char}
    {keys : List String} (hroot : Assoc.Each (Draft.Holds P) root)
    (h : headerLine root cs = some (keys, root', rest)) : Assoc.Each (Draft.Holds P) root' := by
  rcases Option.bind_eq_some_iff.1 h with ⟨⟨⟨isItem, path⟩, after⟩, _, h⟩
  rcases Option.bind_eq_some_iff.1 h with ⟨opened, hopen, h⟩
  rcases Option.bind_eq_some_iff.1 h with ⟨_, _, h⟩
  cases h
  exact Draft.holds_openHeader hP hroot hopen

theorem holds_keyLine {header : List String} {root root' : Draft.Entries} {cs rest : List Char}
    (hroot : Assoc.Each (Draft.Holds P) root)
    (h : keyLine header root cs = some (root', rest)) : Assoc.Each (Draft.Holds P) root' := by
  rcases Option.bind_eq_some_iff.1 h with ⟨⟨⟨path, x⟩, after⟩, hx, h⟩
  rcases Option.bind_eq_some_iff.1 h with ⟨changed, hchange, h⟩
  rcases Option.bind_eq_some_iff.1 h with ⟨_, _, h⟩
  cases h
  refine Draft.holds_descend ?_ hroot hchange
  intro entries entries' hentries hassign
  exact Draft.holds_assign (of_assignment (yields_value hP _ _) hx) hentries hassign

/-- Induction on the lines: each one keeps what holds of the draft. -/
theorem holds_lines {header : List String} {root last : Draft.Entries} {fuel : Nat}
    {cs : List Char} (hroot : Assoc.Each (Draft.Holds P) root)
    (h : linesFrom header root fuel cs = .ok last) : Assoc.Each (Draft.Holds P) last := by
  induction fuel generalizing header root cs with
  | zero => cases h
  | succ fuel ih =>
      rw [linesFrom] at h
      split at h
      · cases h
      · cases h
        exact hroot
      · split at h
        · rename_i hline
          exact ih (holds_headerLine hP hroot hline) h
        · cases h
      · split at h
        · rename_i hline
          exact ih (holds_keyLine hP hroot hline) h
        · cases h

/-- Every document has an inherited property. -/
theorem of_document {text : String} {entries : List (String × Toml)}
    (h : document text = .ok entries) : P (.table entries) := by
  cases hlines : linesFrom [] [] ((dropMark text.toList).length + 1) (dropMark text.toList) with
  | error rest => simp [document, hlines] at h
  | ok root =>
      simp only [document, hlines] at h
      cases h
      exact Draft.of_closeEntries hP (holds_lines hP .nil hlines)

end

end Toml
end ProjectConsistency
