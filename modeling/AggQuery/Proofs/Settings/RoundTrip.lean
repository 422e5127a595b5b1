import AggQuery.Proofs.Files.Writing
import AggQuery.Proofs.Toml.Lines

/-!
# Settings written and read back

The text of settings reads back as these settings (`ofToml_toToml`), whatever characters its
strings hold.

## Implementation notes

The three sections are lists of pairs, one list for each kind of settings. That the lists are
the text and that they read back as the settings are separate statements, so a new setting
touches one list.
-/

namespace AggQuery

open Toml (Assembly Pair sectionText)

namespace LoggingSettings

/-- The lines of the section on logging. -/
def pairs (logging : LoggingSettings) : List Pair :=
  [.string "level" logging.level, .string "format" logging.format.name] ++
    (logging.file.map fun file => Pair.string "file" file).toList

theorem text_eq (logging : LoggingSettings) :
    Settings.loggingText logging = sectionText "logging" logging.pairs := by
  obtain ⟨level, format, file⟩ := logging
  cases file <;>
    simp [Settings.loggingText, sectionText, pairs, Pair.line, Pair.string, Settings.stringLine]

theorem keys_nodup (logging : LoggingSettings) :
    (logging.pairs.map fun pair => pair.key.toList).Nodup := by
  obtain ⟨level, format, file⟩ := logging
  cases file <;> simp [pairs, Pair.string]

theorem ofToml_pairs (logging : LoggingSettings) :
    ofToml (.table {} (logging.pairs.map Pair.entry)) = .ok logging := by
  obtain ⟨level, format, file⟩ := logging
  have hformat : LogFormat.ofToml (.string format.name.toList) = .ok format := by
    cases format <;> rfl
  cases file <;>
    simp [ofToml, Toml.Value.toSection, pairs, Pair.entry, Pair.string, change, Toml.Value.toText,
      hformat, bind, Except.bind, pure, Except.pure]

end LoggingSettings

namespace OutputSettings

/-- The lines of the section on output. -/
def pairs (output : OutputSettings) : List Pair :=
  [.boolean "pretty" output.pretty, .boolean "trailing_newline" output.trailingNewline]

theorem text_eq (output : OutputSettings) :
    Settings.outputText output = sectionText "output" output.pairs := by
  simp [Settings.outputText, sectionText, pairs, Pair.line, Pair.boolean, Settings.booleanLine]

theorem keys_nodup (output : OutputSettings) :
    (output.pairs.map fun pair => pair.key.toList).Nodup := by
  simp [pairs, Pair.boolean]

theorem ofToml_pairs (output : OutputSettings) :
    ofToml (.table {} (output.pairs.map Pair.entry)) = .ok output := by
  simp [ofToml, Toml.Value.toSection, pairs, Pair.entry, Pair.boolean, change,
    Toml.Value.toBoolean, bind, Except.bind, pure, Except.pure]

end OutputSettings

namespace InputSettings

/-- The line of the section on input. -/
def pairs (input : InputSettings) : List Pair :=
  [.string "default_format" input.defaultFormat.name]

theorem text_eq (input : InputSettings) :
    Settings.inputText input = sectionText "input" input.pairs := by
  simp [Settings.inputText, sectionText, pairs, Pair.line, Pair.string, Settings.stringLine]

theorem keys_nodup (input : InputSettings) :
    (input.pairs.map fun pair => pair.key.toList).Nodup := by
  simp [pairs]

theorem ofToml_pairs (input : InputSettings) :
    ofToml (.table {} (input.pairs.map Pair.entry)) = .ok input := by
  have hformat : InputFormat.ofToml (.string input.defaultFormat.name.toList) =
      .ok input.defaultFormat := by
    cases input.defaultFormat <;> rfl
  simp [ofToml, Toml.Value.toSection, pairs, Pair.entry, Pair.string, change, hformat, bind,
    Except.bind, pure, Except.pure]

end InputSettings

namespace Settings

variable (settings : Settings)

/-- The root table of the text of settings. -/
def entries : Toml.Entries :=
  [("logging".toList, .table {} (settings.logging.pairs.map Pair.entry)),
    ("output".toList, .table {} (settings.output.pairs.map Pair.entry)),
    ("input".toList, .table {} (settings.input.pairs.map Pair.entry))]

theorem ofEntries_entries : ofEntries settings.entries = .ok settings := by
  simp [ofEntries, entries, change, LoggingSettings.ofToml_pairs, OutputSettings.ofToml_pairs,
    InputSettings.ofToml_pairs, bind, Except.bind, pure, Except.pure]

/-- A section has no more lines than characters. -/
theorem length_lt_sectionText (name : String) (pairs : List Pair) :
    pairs.length + 1 ≤ (sectionText name pairs).length := by
  have hlines : pairs.length ≤ (pairs.flatMap Pair.line).length := by
    induction pairs with
    | nil => exact le_rfl
    | cons pair pairs ih =>
        have hline : 1 ≤ pair.line.length := by
          simp only [Pair.line, line, List.length_append, List.length_singleton]
          omega
        simp only [List.length_cons, List.flatMap_cons, List.length_append]
        omega
  simp only [sectionText, header, List.length_append, List.length_cons]
  omega

theorem parse_toToml : Toml.parse settings.toToml = some settings.entries := by
  obtain ⟨logging, output, input⟩ := settings
  have htext : (toToml ⟨logging, output, input⟩).toList =
      sectionText "logging" logging.pairs ++ '\n' :: (sectionText "output" output.pairs ++
        '\n' :: (sectionText "input" input.pairs ++ [])) := by
    simp [toToml, LoggingSettings.text_eq, OutputSettings.text_eq, InputSettings.text_eq]
  have hmark : (toToml ⟨logging, output, input⟩).toList.head? ≠ some '\ufeff' := by
    rw [htext]
    simp [sectionText, header]
  have hfuel : ∃ spare, (toToml ⟨logging, output, input⟩).toList.length + 1 =
      spare + 1 + (input.pairs.length + 1) + 1 + (output.pairs.length + 1) + 1 +
        (logging.pairs.length + 1) := by
    refine ⟨(toToml ⟨logging, output, input⟩).toList.length -
      (logging.pairs.length + output.pairs.length + input.pairs.length + 5), ?_⟩
    have hlogging := length_lt_sectionText "logging" logging.pairs
    have houtput := length_lt_sectionText "output" output.pairs
    have hinput := length_lt_sectionText "input" input.pairs
    rw [htext]
    simp only [List.length_append, List.length_cons, List.length_nil]
    omega
  obtain ⟨spare, hfuel⟩ := hfuel
  unfold Toml.parse
  simp only [hmark, if_false]
  rw [hfuel, htext]
  rw [Assembly.readLines_section _ _ _ rfl (by decide) rfl logging.keys_nodup,
    Assembly.readLines_blank,
    Assembly.readLines_section _ _ _ (Assembly.close_word rfl) (by decide) (by rfl)
      output.keys_nodup,
    Assembly.readLines_blank,
    Assembly.readLines_section _ _ _ (Assembly.close_word (by rfl)) (by decide) (by rfl)
      input.keys_nodup,
    Assembly.readLines_end, Assembly.close_word (by rfl)]
  rfl

theorem ofToml_toToml : ofToml settings.toToml = .ok settings := by
  rw [ofToml, parse_toToml]
  simp [ofEntries_entries, Except.mapError]

/-- A save that succeeds leaves the text of the settings in the file. -/
theorem readText_of_save {path : String} {session saved : Session}
    (hsave : (settings.save path : SessionM _) session = (.ok (), saved)) :
    saved.files.exists? path = true ∧ saved.files.readText path = .ok settings.toToml := by
  have hwrite : ∃ before : Session,
      (FileSystem.writeText path settings.toToml : SessionM _) before = (.ok (), saved) := by
    cases hparents : session.files.makeParents path with
    | mk files outcome =>
        cases outcome with
        | error e =>
            simp only [save, Session.bind_apply, Session.makeParents_apply, hparents,
              Session.pure_apply] at hsave
            cases congrArg Prod.fst hsave
        | ok done =>
            refine ⟨{ session with files }, ?_⟩
            simpa [save, hparents] using hsave
  obtain ⟨before, hwrite⟩ := hwrite
  obtain ⟨place, htarget, rfl⟩ := Session.writeText_eq_ok_iff.mp hwrite
  exact ⟨FileTree.exists?_put _ htarget, FileTree.readText_put _ htarget⟩

/-- Settings read back from their text as they are, and from a file in which they were saved
as they are but for the tilde in the path of the log file. -/
theorem readBack_text_and_file :
    ofToml settings.toToml = .ok settings ∧
      ∀ (home path : String) (session saved : Session), Path.expandTilde home path = path →
        (settings.save path : SessionM _) session = (.ok (), saved) →
        (loadFrom home path : SessionM _) saved =
          (.ok { settings with logging := { settings.logging with
            file := settings.logging.file.map (Path.expandTilde home) } }, saved) := by
  refine ⟨ofToml_toToml settings, fun home path session saved hpath hsave => ?_⟩
  obtain ⟨hexists, htext⟩ := readText_of_save settings hsave
  have hread : (readAt path : SessionM _) saved = (.ok settings, saved) := by
    simp [readAt, hexists, htext, ofToml_toToml]
  simp [loadFrom, hpath, hread, Except.map, expandPaths]

/-- Settings whose strings hold quotes of both kinds, backslashes, line breaks and controls. -/
def awkward : Settings where
  logging :=
    { level := "\n'''\"\"\"\\\t\r\x7f\"", format := .json,
      file := some "~/it's \"here\"\n\x01''''" }

theorem awkward_readBack :
    Path.expandTilde "/home/a" "b/settings.toml" = "b/settings.toml" ∧
      ∃ saved, (awkward.save "b/settings.toml" : SessionM _) {} = (.ok (), saved) ∧
        ofToml awkward.toToml = .ok awkward ∧
        (loadFrom "/home/a" "b/settings.toml" : SessionM _) saved =
          (.ok { awkward with logging := { awkward.logging with
            file := some "/home/a/it's \"here\"\n\x01''''" } }, saved) := by
  have hpath : Path.expandTilde "/home/a" "b/settings.toml" = "b/settings.toml" := by
    decide +kernel
  have hfile : awkward.logging.file.map (Path.expandTilde "/home/a") =
      some "/home/a/it's \"here\"\n\x01''''" := by decide +kernel
  have hsave : (awkward.save "b/settings.toml" : SessionM _) {} =
      (.ok (), ((awkward.save "b/settings.toml" : SessionM _) {}).2) :=
    Prod.ext (by decide +kernel) rfl
  obtain ⟨htext, hload⟩ := readBack_text_and_file awkward
  refine ⟨hpath, _, hsave, htext, ?_⟩
  rw [← hfile]
  exact hload _ _ _ _ hpath hsave

end Settings

end AggQuery
