import ProjectConsistency.Fix.Record
import ProjectConsistency.Report.Diagnostic

/-!
# Coloured — colours add control sequences and nothing else

This file defines:

* `Ansi.Plain` — a text without escape characters;
* `Ansi.Painted` — a text with control sequences put between the characters of a plain one;
* `Ansi.Faithful` — a way to write a text with and without colours, of which the first is the second
  painted.

Stripping a painted text gives the plain one back (`Painted.stripFrom_eq`).  What is faithful in its
parts is faithful (`Faithful.append`, `Faithful.join`), so each renderer is followed line by line: a
report (`Report.faithful_text`), the records of fixes (`faithful_fixesText`) and the messages beside
the output (`Diagnostic.faithful_render`).
-/

namespace ProjectConsistency
namespace Ansi

/-! ## Painted texts -/

/-- The text has no escape characters. -/
def Plain (text : String) : Prop :=
  escape ∉ text.toList

instance (text : String) : Decidable (Plain text) :=
  inferInstanceAs (Decidable (escape ∉ text.toList))

/-- The second text is the first, in which nothing is an escape, with control sequences between its
characters. -/
inductive Painted : List Char → List Char → Prop where
  | nil : Painted [] []
  | char {c : Char} {plain coloured : List Char} (hc : c ≠ escape) (rest : Painted plain coloured) :
      Painted (c :: plain) (c :: coloured)
  | code {number : String} {plain coloured : List Char} (hnumber : 'm' ∉ number.toList)
      (rest : Painted plain coloured) : Painted plain ((sequence number).toList ++ coloured)

namespace Painted

variable {plain coloured plain' coloured' : List Char}

theorem refl {cs : List Char} (h : escape ∉ cs) : Painted cs cs := by
  induction cs with
  | nil => exact .nil
  | cons c cs ih =>
      obtain ⟨hc, hcs⟩ : ¬ escape = c ∧ escape ∉ cs := by simpa using h
      exact .char (Ne.symm hc) (ih hcs)

/-- Two coloured texts may be put one after the other. -/
theorem append (h : Painted plain coloured) (h' : Painted plain' coloured') :
    Painted (plain ++ plain') (coloured ++ coloured') := by
  induction h with
  | nil => exact h'
  | char hc _ ih => exact .char hc ih
  | code hnumber _ ih =>
      rw [List.append_assoc]
      exact .code hnumber ih

/-- A control sequence ends at its first `m`. -/
theorem stripFrom_inside {number : List Char} (h : 'm' ∉ number) (rest : List Char) :
    stripFrom true (number ++ 'm' :: rest) = stripFrom false rest := by
  induction number with
  | nil => simp [stripFrom]
  | cons c number ih =>
      obtain ⟨hc, hnumber⟩ : ¬ 'm' = c ∧ 'm' ∉ number := by simpa using h
      rw [List.cons_append, stripFrom, if_pos rfl, decide_eq_true (Ne.symm hc), ih hnumber]

/-- A whole escape sequence is dropped. -/
theorem stripFrom_sequence {number : String} (h : 'm' ∉ number.toList) (rest : List Char) :
    stripFrom false ((sequence number).toList ++ rest) = stripFrom false rest := by
  have hinside : 'm' ∉ '[' :: number.toList := by simpa using h
  have htext : (sequence number).toList ++ rest
      = escape :: ('[' :: number.toList ++ 'm' :: rest) := by simp [sequence]
  rw [htext, stripFrom, if_neg (by simp), if_pos rfl, stripFrom_inside hinside]

/-- What is stripped of a painted text is what was painted. -/
theorem stripFrom_eq (h : Painted plain coloured) : stripFrom false coloured = plain := by
  induction h with
  | nil => rfl
  | char hc _ ih => rw [stripFrom, if_neg (by simp), if_neg hc, ih]
  | code hnumber _ ih => rw [stripFrom_sequence hnumber, ih]

end Painted

/-! ## Faithful renderers -/

/-- With colours the text is the one without them, with control sequences between its characters. -/
def Faithful (render : Bool → String) : Prop :=
  Painted (render false).toList (render true).toList

namespace Faithful

variable {render render' : Bool → String}

/-- Stripping a faithfully coloured text gives the plain one. -/
theorem strip_eq (h : Faithful render) : strip (render true) = render false := by
  rw [strip, h.stripFrom_eq, String.ofList_toList]

theorem plain {text : String} (h : Plain text) : Faithful fun _ => text :=
  Painted.refl h

theorem append (h : Faithful render) (h' : Faithful render') :
    Faithful fun colours => render colours ++ render' colours := by
  simpa [Faithful] using Painted.append h h'

/-- A text that is the same with colours and without may come after any other. -/
theorem text {after : String} (h : Faithful render) (hafter : Plain after) :
    Faithful fun colours => render colours ++ after :=
  h.append (plain hafter)

/-- Lines that are coloured faithfully may be joined. -/
theorem join {α : Type} {line : Bool → α → String} {xs : List α}
    (h : ∀ x ∈ xs, Faithful fun colours => line colours x) :
    Faithful fun colours => String.join (xs.map (line colours)) := by
  induction xs with
  | nil => exact .nil
  | cons x xs ih =>
      obtain ⟨hx, hxs⟩ := List.forall_mem_cons.1 h
      simpa using hx.append (ih hxs)

/-- An optional line is faithful if the line is. -/
theorem elim {line : Bool → String → String} {text : Option String}
    (h : ∀ t ∈ text, Faithful fun colours => line colours t) :
    Faithful fun colours => text.elim "" (line colours) := by
  cases text with
  | none => exact .nil
  | some t => exact h t rfl

/-- A colour code in front of a text leaves its plain form. -/
theorem painted_code (style : Style) {plain coloured : List Char} (h : Painted plain coloured) :
    Painted plain (style.code.toList ++ coloured) := by
  cases style <;> exact .code (by decide) h

/-- Painting a plain text is faithful, in any styles. -/
theorem paint (styles : List Style) {text : String} (h : Plain text) :
    Faithful fun colours => Ansi.paint colours styles text := by
  have htail : Painted text.toList (text.toList ++ reset.toList) := by
    have hreset : Painted [] (reset.toList ++ []) := .code (by decide) .nil
    simpa using (Painted.refl h).append hreset
  have hcoloured : Painted text.toList
      ((String.join (styles.map Style.code)).toList ++ (text.toList ++ reset.toList)) := by
    induction styles with
    | nil => simpa using htail
    | cons style styles ih => simpa using painted_code style ih
  simpa [Faithful, Ansi.paint] using hcoloured

end Faithful

/-! ## Plain texts -/

theorem Plain.append {a b : String} (ha : Plain a) (hb : Plain b) : Plain (a ++ b) := by
  simp only [Plain, String.toList_append, List.mem_append, not_or]
  exact ⟨ha, hb⟩

theorem plain_toString (n : Nat) : Plain (toString n) := by
  intro hmem
  have hdigits : escape ∈ Nat.toDigits 10 n := by
    rw [← Nat.toList_repr]
    exact hmem
  have hdigit := Nat.isDigit_of_mem_toDigits (by omega) (by omega) hdigits
  cases hdigit

end Ansi

open Ansi

theorem Category.plain_title (category : Category) : Plain category.title := by
  cases category <;> decide

theorem ProjectType.plain_title (type : ProjectType) : Plain type.title := by
  cases type <;> decide

theorem FixKind.plain_padEnd (kind : FixKind) : Plain (Report.padEnd 16 kind.title) := by
  cases kind <;> decide

/-! ## Reports -/

/-- The texts of an issue that are shown have no escape characters. -/
structure Issue.IsPlain (issue : Issue) : Prop where
  message : Plain issue.message
  suggestion : ∀ suggestion ∈ issue.suggestion, Plain suggestion

/-- The texts of a report have no escape characters. -/
structure Report.IsPlain (r : Report) : Prop where
  projectName : Plain r.projectName
  path : Plain r.path
  size : Plain r.size
  issues : ∀ issue ∈ r.issues, issue.IsPlain
  actions : ∀ recommendation ∈ r.recommendations, ∀ action ∈ recommendation.actions, Plain action

namespace Report

/-- The label of an issue holds no escape of its own. -/
theorem plain_label (severity : Severity) :
    Plain (severityIcon severity ++ " " ++ padEnd 7 severity.title) := by
  cases severity <;> decide

/-- The line of an issue is a painted label before plain texts. -/
theorem faithful_issueText {issue : Issue} (h : issue.IsPlain) :
    Faithful fun colours => issueText colours issue := by
  have hhelp : ∀ suggestion ∈ issue.suggestion, Faithful fun colours =>
      "            " ++ paint colours [.cyan] "help:" ++ " " ++ suggestion ++ "\n" := by
    intro suggestion hsuggestion
    exact (Faithful.plain (by decide)).append (.paint _ (by decide))
      |>.text (by decide) |>.text (h.suggestion _ hsuggestion) |>.text (by decide)
  exact ((Faithful.plain (by decide)).append (.paint _ (plain_label _))
    |>.text (by decide) |>.text (Category.plain_title _) |>.text (by decide)
    |>.text h.message |>.text (by decide)).append (.elim hhelp)

theorem faithful_issuesText {issues : List Issue} (h : ∀ issue ∈ issues, issue.IsPlain) :
    Faithful fun colours => issuesText colours issues := by
  cases issues with
  | nil => exact (Faithful.plain (by decide)).append (.paint _ (by decide)) |>.text (by decide)
  | cons issue rest =>
      exact (Faithful.plain (by decide)).append (.join fun x hx => faithful_issueText (h x hx))

theorem faithful_countText (issues : List Issue) (severity : Severity) :
    Faithful fun colours => countText colours issues severity :=
  .paint _ (plain_toString _)

/-- Of the summary only the size is text from outside. -/
theorem faithful_summaryText {r : Report} (h : Plain r.size) :
    Faithful fun colours => summaryText colours r := by
  have hscore : Plain (toString r.score ++ "/100") := (plain_toString _).append (by decide)
  have hcounts : Faithful fun colours =>
      "Summary: " ++ countText colours r.issues .error ++ " errors, "
        ++ countText colours r.issues .warning ++ " warnings, "
        ++ countText colours r.issues .info :=
    ((((Faithful.plain (by decide)).append (faithful_countText _ _)).text (by decide)).append
      (faithful_countText _ _) |>.text (by decide)).append (faithful_countText _ _)
  exact (hcounts |>.text (by decide) |>.text (plain_toString _) |>.text (by decide)
    |>.text (plain_toString _) |>.text (by decide) |>.text h |>.text (by decide)
    |>.text (by decide)).append (.paint _ hscore) |>.text (by decide)

theorem faithful_recommendationText (number : Nat) {r : Recommendation}
    (h : ∀ action ∈ r.actions, Plain action) :
    Faithful fun colours => recommendationText colours number r := by
  have hcount : Plain (if r.issueCount = 1 then " issue" else " issues") := by
    split <;> decide
  have hactions : ∀ action ∈ r.actions, Faithful fun _ => "     - " ++ action ++ "\n" :=
    fun action haction => (Faithful.plain (by decide)).text (h action haction) |>.text (by decide)
  exact ((Faithful.plain (by decide) |>.text (plain_toString _) |>.text (by decide)).append
    (.paint _ (Category.plain_title _)) |>.text (by decide) |>.text (plain_toString _)
    |>.text hcount |>.text (by decide) |>.text (plain_toString _) |>.text (by decide)).append
    (.join hactions)

theorem faithful_recommendationTexts (number : Nat) {rs : List Recommendation}
    (h : ∀ r ∈ rs, ∀ action ∈ r.actions, Plain action) :
    Faithful fun colours => recommendationTexts colours number rs := by
  induction rs generalizing number with
  | nil => exact .nil
  | cons r rest ih =>
      obtain ⟨hr, hrest⟩ := List.forall_mem_cons.1 h
      exact (faithful_recommendationText number hr).append (ih (number + 1) hrest)

theorem faithful_recommendationsText (verbosity : Nat) {rs : List Recommendation}
    (h : ∀ r ∈ rs, ∀ action ∈ r.actions, Plain action) :
    Faithful fun colours => recommendationsText colours verbosity rs := by
  cases rs with
  | nil => exact .nil
  | cons r rest =>
      -- All recommendations are shown, or the first of them.
      have hshown : ∀ r' ∈ if 0 < verbosity then r :: rest else (r :: rest).take shownRecommendations,
          ∀ action ∈ r'.actions, Plain action := by
        intro r' hr'
        split at hr'
        · exact h r' hr'
        · exact h r' (List.mem_of_mem_take hr')
      exact (Faithful.plain (by decide)).append (faithful_recommendationTexts 1 hshown)

/-- The whole report is its parts one after the other. -/
theorem faithful_text {r : Report} (h : r.IsPlain) (verbosity : Nat) :
    Faithful fun colours => text colours verbosity r := by
  have hhead : Faithful fun _ =>
      "Project: " ++ r.projectName ++ " (" ++ r.projectType.title ++ ")\n" ++ "Path: " ++ r.path
        ++ "\n" :=
    Faithful.plain (by decide) |>.text h.projectName |>.text (by decide)
      |>.text (ProjectType.plain_title _) |>.text (by decide) |>.text (by decide) |>.text h.path
      |>.text (by decide)
  exact ((hhead.append (faithful_issuesText h.issues)).text (by decide)).append
    (faithful_summaryText h.size) |>.append (faithful_recommendationsText verbosity h.actions)

end Report

/-! ## Fixes -/

/-- The reason of an outcome, if it has one, has no escape characters. -/
def FixOutcome.IsPlain : FixOutcome → Prop
  | applied => True
  | failed reason => Plain reason
  | skipped reason => Plain reason

/-- The texts of a record have no escape characters. -/
structure FixRecord.IsPlain (r : FixRecord) : Prop where
  target : Plain r.target
  outcome : r.outcome.IsPlain

theorem FixOutcome.faithful_text {outcome : FixOutcome} (h : outcome.IsPlain) :
    Faithful fun colours => outcome.text colours := by
  have hreason : ∀ {before reason : String}, Plain before → Plain reason →
      Plain (before ++ reason ++ ")") :=
    fun hbefore hreason => (hbefore.append hreason).append (by decide)
  cases outcome with
  | applied => exact .paint _ (by decide)
  | failed reason => exact .paint _ (hreason (by decide) h)
  | skipped reason => exact .paint _ (hreason (by decide) h)

theorem FixRecord.faithful_line {r : FixRecord} (h : r.IsPlain) :
    Faithful fun colours => r.line colours :=
  (Faithful.plain (by decide) |>.text (FixKind.plain_padEnd _) |>.text (by decide)
    |>.text h.target |>.text (by decide)).append (FixOutcome.faithful_text h.outcome)
    |>.text (by decide)

/-- The records of the fixes are joined lines, with the counts below them. -/
theorem faithful_fixesText {records : List FixRecord} (h : ∀ r ∈ records, r.IsPlain) :
    Faithful fun colours => fixesText colours records := by
  cases records with
  | nil => exact .plain (by decide)
  | cons r rest =>
      have hcount : ∀ p, Plain (countOutcomes p (r :: rest)) := fun _ => plain_toString _
      exact Faithful.join (fun x hx => FixRecord.faithful_line (h x hx))
        |>.text (by decide) |>.text (hcount _) |>.text (by decide) |>.text (hcount _)
        |>.text (by decide) |>.text (hcount _) |>.text (by decide)

/-! ## Messages -/

namespace Diagnostic

/-- The texts of a message have no escape characters. -/
def IsPlain : Diagnostic → Prop
  | error title message detail hint =>
      Plain title ∧ Plain message ∧ (∀ d ∈ detail, Plain d) ∧ ∀ h ∈ hint, Plain h
  | warning message detail hint =>
      Plain message ∧ (∀ d ∈ detail, Plain d) ∧ ∀ h ∈ hint, Plain h
  | note message => Plain message

theorem faithful_detailLine {detail : Option String} (h : ∀ d ∈ detail, Plain d) :
    Faithful fun colours => detailLine colours detail := by
  refine .elim ?_
  intro d hd
  have hmarked : Plain ("× " ++ d) := Plain.append (by decide) (h d hd)
  exact (Faithful.plain (by decide)).append (.paint _ hmarked) |>.text (by decide)

theorem faithful_hintLine {hint : Option String} (h : ∀ t ∈ hint, Plain t) :
    Faithful fun colours => hintLine colours hint := by
  refine .elim ?_
  intro t ht
  exact (Faithful.plain (by decide)).append (.paint _ (by decide))
    |>.text (by decide) |>.text (h t ht) |>.text (by decide)

/-- A diagnostic is its message between an optional detail and an optional hint. -/
theorem faithful_render {d : Diagnostic} (h : d.IsPlain) :
    Faithful fun colours => d.render colours := by
  cases d with
  | error title message detail hint =>
      obtain ⟨htitle, hmessage, hdetail, hhint⟩ := h
      have hhead : Plain ("✖ " ++ title ++ ":") :=
        (Plain.append (by decide) htitle).append (by decide)
      exact (Faithful.paint _ hhead |>.text (by decide) |>.text hmessage |>.text (by decide)).append
        (faithful_detailLine hdetail) |>.append (faithful_hintLine hhint)
  | warning message detail hint =>
      obtain ⟨hmessage, hdetail, hhint⟩ := h
      exact (Faithful.paint _ (by decide) |>.text (by decide) |>.text hmessage
        |>.text (by decide)).append (faithful_detailLine hdetail)
        |>.append (faithful_hintLine hhint)
  | note message =>
      have hmarked : Plain ("· " ++ message) := Plain.append (by decide) h
      exact (Faithful.paint _ hmarked).text (by decide)

end Diagnostic

/-! ## All renderers -/

/--
Colours never change the text.  If no escape character is in the texts that are shown, the coloured
text without its control sequences is the text without colours: for reports, for the records of
fixes and for the messages beside the output.
-/
theorem strip_coloured :
    (∀ (r : Report) (verbosity : Nat), r.IsPlain →
      strip (r.text true verbosity) = r.text false verbosity) ∧
    (∀ records : List FixRecord, (∀ r ∈ records, r.IsPlain) →
      strip (fixesText true records) = fixesText false records) ∧
    (∀ d : Diagnostic, d.IsPlain → strip (d.render true) = d.render false) :=
  ⟨fun _ verbosity h => (Report.faithful_text h verbosity).strip_eq,
    fun _ h => (faithful_fixesText h).strip_eq, fun _ h => (Diagnostic.faithful_render h).strip_eq⟩

def colouredReport : Report :=
  let issue : Issue := {
    category := .naming, severity := .warning
    message := "File name `My File.ts` does not follow kebab-case"
    suggestion := some "rename `My File.ts` to `my-file.ts`" }
  { projectName := "shop", path := "/shop", projectType := .web, score := 95, fileCount := 1,
    directoryCount := 0, size := "3 B", issues := [issue], recommendations := recommend [issue],
    generated := ⟨0, 0⟩ }

def colouredRecord : FixRecord :=
  ⟨.rename, "My File.ts -> my-file.ts", .failed "destination exists"⟩

def colouredMessage : Diagnostic :=
  .error "Config" "bad standards" (some "no such preset") (some "run `init`")

theorem strip_coloured_sample :
    colouredReport.IsPlain ∧ colouredRecord.IsPlain ∧ colouredMessage.IsPlain ∧
      strip (colouredReport.text true 1) = colouredReport.text false 1 ∧
      strip (fixesText true [colouredRecord]) = fixesText false [colouredRecord] ∧
      strip (colouredMessage.render true) = colouredMessage.render false ∧
      colouredMessage.render false
        = "✖ Config: bad standards\n  × no such preset\n  help: run `init`\n" := by
  obtain ⟨hreport, hrecords, hmessage⟩ := strip_coloured
  have hplainReport : colouredReport.IsPlain := by
    have hissues : ∀ issue ∈ colouredReport.issues, issue.IsPlain := by
      intro issue hissue
      obtain rfl := List.mem_singleton.1 hissue
      exact ⟨by decide, by decide⟩
    have hactions : ∀ recommendation ∈ colouredReport.recommendations,
        ∀ action ∈ recommendation.actions, Plain action := by
      decide +kernel
    exact ⟨by decide, by decide, by decide, hissues, hactions⟩
  have hplainRecord : colouredRecord.IsPlain := ⟨by decide, show Plain _ by decide⟩
  have hplainMessage : colouredMessage.IsPlain :=
    ⟨by decide, by decide, by decide, by decide⟩
  refine ⟨hplainReport, hplainRecord, hplainMessage, hreport _ 1 hplainReport,
    hrecords _ (List.forall_mem_singleton.2 hplainRecord), hmessage _ hplainMessage, ?_⟩
  decide +kernel

end ProjectConsistency
