import Laminar.Proofs.Settings.Layers
import Laminar.Proofs.Toml.Document

/-!
# Settings that are reloaded

Settings are read back as they are shown: from the text of `toToml` as the local file, the settings
are loaded that it was made from, whatever the label is (`load_toToml`). The text sets every field,
so nothing in the global file shows through, and only the environment goes over it.
-/

namespace Laminar.Settings

open Toml

variable {host : Host} {environment : List (String × String)}

/-! ## The text of settings -/

/-- A truth value is read back as it is written. -/
theorem shown_booleanText (b : Bool) : Shown (booleanText b).toList (.boolean b) := by
  cases b with
  | false => exact shown_false
  | true => exact shown_true

/-- The lines that show settings. -/
def shownLines (settings : Settings) : List Line :=
  [⟨"fill_gaps", _, _, by decide, shown_booleanText settings.fillGaps⟩,
    ⟨"degenerate", _, _, by decide, shown_string (policyWord settings.degenerate)⟩,
    ⟨"fragment_label", _, _, by decide, shown_string settings.fragmentLabel⟩]

/-- A line as a text. -/
theorem ofList_text (line : Line) :
    String.ofList line.text = line.key ++ " = " ++ String.ofList line.written ++ "\n" := by
  have sign : " = " = String.ofList [' ', '=', ' '] := by decide
  have ended : "\n" = String.ofList ['\n'] := by decide
  rw [sign, ended, Line.text, String.ofList_append, String.ofList_append, String.ofList_append,
    String.ofList_toList]
  simp only [String.append_assoc]

/-- The text of settings has one line for each. -/
theorem toToml_eq (settings : Settings) :
    settings.toToml = String.ofList ((shownLines settings).flatMap Line.text) := by
  have gaps : "fill_gaps = " = "fill_gaps" ++ " = " := by decide
  have policy : "degenerate = " = "degenerate" ++ " = " := by decide
  have label : "fragment_label = " = "fragment_label" ++ " = " := by decide
  unfold toToml
  rw [gaps, policy, label, shownLines, List.flatMap_cons, List.flatMap_cons, List.flatMap_cons,
    List.flatMap_nil, List.append_nil, String.ofList_append, String.ofList_append, ofList_text,
    ofList_text, ofList_text, String.ofList_toList]
  simp only [String.append_assoc, stringText]

/-- The text of settings is read as a layer that sets every field. -/
theorem ofToml?_toToml (settings : Settings) :
    Layer.ofToml? settings.toToml =
      some ⟨some settings.fillGaps, some settings.degenerate, some settings.fragmentLabel⟩ := by
  have distinct : ((shownLines settings).map Line.key).Nodup := by
    show ["fill_gaps", "degenerate", "fragment_label"].Nodup
    decide
  have read := read?_texts distinct
  rw [Layer.ofToml?, toToml_eq, read]
  simp [shownLines, Line.entry, entry?, Entries.get?, booleanOf?, policyOf?, textOf?]

/-! ## Loading -/

/-- No variable is about settings: no name begins as theirs do, in whatever case. -/
def NoVariables (environment : List (String × String)) : Prop :=
  ∀ entry ∈ environment, ¬ variableStart <+: (Text.lower entry.1).toList

/-- An environment without variables about settings leaves everything open. -/
theorem ofEnvironment_of_noVariables (silent : NoVariables environment) :
    Layer.ofEnvironment environment = .ok {} := by
  have absent (name : String) : lookUp? environment name = none := by
    rw [lookUp?, List.filterMap_eq_nil_iff.mpr, List.getLast?_nil]
    intro entry present
    have other : settingName? entry.1 = none :=
      if_neg fun begins => silent entry present (List.isPrefixOf_iff_prefix.mp begins)
    show (settingName? entry.1).bind _ = none
    rw [other, Option.bind_none]
  simp only [Layer.ofEnvironment, fillGapsOf, degenerateOf, fragmentLabelOf, absent]
  rfl

/-- Settings reload as they are shown. If the text of some settings is the local file of a
directory, no variable is about settings and the global file, if it is there, holds settings, then
exactly the settings that were shown are loaded. -/
theorem load_toToml (host : Host) (directory : String) (settings : Settings)
    (present : host.present (localPath directory) = true)
    (shown : host.read (localPath directory) = .ok settings.toToml)
    (overall : ∃ layer, FileSays host (globalPath host) layer)
    (silent : NoVariables host.environment) :
    load host (some directory) = .ok settings := by
  obtain ⟨overall, global⟩ := overall
  have nearby : Layer.ofFile host (localPath directory) =
      .ok ⟨some settings.fillGaps, some settings.degenerate, some settings.fragmentLabel⟩ :=
    ofFile_eq_ok_iff.mpr (.found present shown (ofToml?_toToml settings))
  simp only [load, ofFile_eq_ok_iff.mpr global, nearby, ofEnvironment_of_noVariables silent]
  rfl

/-- A machine whose global file sets every field and whose local one is a text. -/
def overruled (text : String) : Host where
  read path :=
    if path = "/work/.finter.toml" then .ok text
    else .ok "fill_gaps = true\ndegenerate = \"reject\"\nfragment_label = \"overall\"\n"
  length _ := .error .missing
  present _ := true
  environment := [("XDG_CONFIG_HOME", "/etc"), ("NO_FINTER_FILL_GAPS", "on")]
  directory := "/"
  accountHome := "/"

/-- A label with quotes of both kinds, a backslash, control characters and line breaks is reloaded,
whatever the global file says. -/
theorem load_toToml_overruled :
    let settings : Settings := ⟨false, .skip, "\"\"\"\"'''\\\r\n\t\x00\x7f\n"⟩
    FileSays (overruled settings.toToml) "/etc/finter/finter.toml"
        ⟨some true, some .reject, some "overall"⟩ ∧
      load (overruled settings.toToml) (some "/work") = .ok settings := by
  intro settings
  have above (text : String) : globalPath (overruled text) = "/etc/finter/finter.toml" := by
    show globalPath (overruled "") = _
    decide
  have beside : localPath "/work" = "/work/.finter.toml" := by decide
  have overall : FileSays (overruled settings.toToml) "/etc/finter/finter.toml"
      ⟨some true, some .reject, some "overall"⟩ := .found rfl rfl (by decide +kernel)
  have silent : NoVariables (overruled settings.toToml).environment := by
    show NoVariables (overruled "").environment
    unfold NoVariables
    decide +kernel
  have shown : (overruled settings.toToml).read (localPath "/work") = .ok settings.toToml := by
    rw [beside]
    rfl
  have global := (above settings.toToml).symm ▸ overall
  exact ⟨overall, load_toToml _ "/work" settings rfl shown ⟨_, global⟩ silent⟩

end Laminar.Settings
