import Mathlib.Data.List.Forall2
import TypeDescription.CommandLine

/-!
How a call of the program puts the reports of its files together. The report of a file depends on its
path and on the flags and on no other file, and a file that cannot be opened or parsed is the last one
to be reported; so what is printed is what each file alone would print, up to that one. Whether a file
can be parsed depends on no flag. The counts below the events of a file are kept beside what is printed
of each, one event at a time.
-/

namespace TypeDescription

/-! ## Events -/

/-- What an event is counted as. -/
inductive EventClass where
  | type
  | addendum
  | rule
  | letterSet
  | comment
  deriving DecidableEq

/-- The class of an event. -/
def Event.countedAs : Event → EventClass
  | definition d => if d.isAddendum then .addendum else .type
  | rule _ => .rule
  | letterSet .. => .letterSet
  | lineComment .. | blockComment .. => .comment

/-- The word for an event of a class. -/
def EventClass.word : EventClass → String
  | type => "type"
  | addendum => "addendum"
  | rule => "rule"
  | letterSet => "letter-set"
  | comment => "comment"

/-- What is said of a definition in one line: its name and its supertypes, and how many features and
coreferences it has. -/
def Definition.about (d : Definition) : String :=
  d.identifier ++ " [" ++ " & ".intercalate (d.conjunction.types.map Term.text) ++ "] " ++
    toString d.conjunction.flatFeatures.length ++ " features, " ++
    toString d.coreferences.length ++ " coreferences"

namespace Event

/-- What is said of an event in one line, after the word for its class. -/
def about : Event → String
  | definition d => d.about
  | rule r => r.definition.about ++ ", " ++ toString r.affixes.length ++ " " ++ r.side.word ++ " affixes"
  | letterSet _ line | lineComment _ line | blockComment _ line => "at line " ++ toString line

/-- What is printed of an event: in full it is as it is written, and in one line the word for its class
comes first, which is what it is counted as. -/
inductive ShownAs : (summary : Bool) → Event → String → Prop where
  | definition (d : Definition) : ShownAs false (.definition d) (d.text ++ "\n\n")
  | rule (r : InflectionalRule) : ShownAs false (.rule r) (r.text ++ "\n\n")
  | letterSet (text : String) (line : Nat) : ShownAs false (.letterSet text line) ("%(" ++ text ++ ")\n\n")
  | lineComment (text : String) (line : Nat) : ShownAs false (.lineComment text line) (";" ++ text ++ "\n")
  | blockComment (text : String) (line : Nat) :
      ShownAs false (.blockComment text line) ("#|" ++ text ++ "|#\n\n")
  | inOneLine (event : Event) : ShownAs true event (event.countedAs.word ++ " " ++ event.about ++ "\n")

private theorem summary_of_definition (kind : String) (d : Definition) :
    d.summary kind = kind ++ " " ++ d.about := by
  simp only [Definition.summary, Definition.about, String.append_assoc]

private theorem place_eq (word : String) (line : Nat) {begin : String} (split : begin = word ++ (" " ++ "at line ")) :
    begin ++ toString line ++ "\n" = word ++ " " ++ ("at line " ++ toString line) ++ "\n" := by
  rw [split]
  simp only [String.append_assoc]

theorem summary_eq (event : Event) : event.summary = event.countedAs.word ++ " " ++ event.about ++ "\n" := by
  cases event with
  | definition d =>
    change d.summary (if d.isAddendum then "addendum" else "type") ++ "\n" =
      (if d.isAddendum then EventClass.addendum else .type).word ++ " " ++ d.about ++ "\n"
    rw [summary_of_definition]
    cases d.isAddendum <;> rfl
  | rule r =>
    have affixes : " affixes\n" = " affixes" ++ "\n" := by decide
    have ends (before : String) : before ++ " affixes\n" = before ++ " affixes" ++ "\n" :=
      (congrArg (before ++ ·) affixes).trans String.append_assoc.symm
    refine (ends _).trans ?_
    simp only [countedAs, EventClass.word, summary_of_definition, about, String.append_assoc]
  | letterSet text line => exact place_eq "letter-set" line (by decide)
  | lineComment text line | blockComment text line => exact place_eq "comment" line (by decide)

theorem shown_as (settings : Settings) (event : Event) :
    event.ShownAs settings.summary (settings.shown event) := by
  rw [Settings.shown]
  cases settings.summary with
  | true => exact event.summary_eq ▸ ShownAs.inOneLine event
  | false => cases event <;> constructor

end Event

/-! ## Tallies -/

namespace Tally

/-- The number of events of a class. -/
def of (tally : Tally) : EventClass → Nat
  | .type => tally.types
  | .addendum => tally.addenda
  | .rule => tally.rules
  | .letterSet => tally.letterSets
  | .comment => tally.comments

/-- The number of all events. -/
def total (tally : Tally) : Nat :=
  tally.types + tally.addenda + tally.rules + tally.letterSets + tally.comments

/-- One more event is one more of its class and of no other. -/
theorem of_record (tally : Tally) (event : Event) (c : EventClass) :
    (tally.record event).of c = tally.of c + if event.countedAs = c then 1 else 0 := by
  cases event with
  | definition d => cases addendum : d.isAddendum <;> cases c <;> simp [record, Event.countedAs, of, addendum]
  | _ => cases c <;> rfl

theorem total_record (tally : Tally) (event : Event) : (tally.record event).total = tally.total + 1 := by
  cases event with
  | definition d => cases addendum : d.isAddendum <;> simp [record, total, addendum] <;> omega
  | _ =>
    simp only [record, total]
    omega

theorem of_foldl (tally : Tally) (events : List Event) (c : EventClass) :
    (events.foldl record tally).of c = tally.of c + events.countP (·.countedAs = c) := by
  induction events generalizing tally with
  | nil => rfl
  | cons event events ih =>
    rw [List.foldl_cons, ih, of_record, List.countP_cons, Nat.add_assoc, Nat.add_comm (events.countP _)]
    simp only [decide_eq_true_eq]

theorem total_foldl (tally : Tally) (events : List Event) :
    (events.foldl record tally).total = tally.total + events.length := by
  induction events generalizing tally with
  | nil => rfl
  | cons event events ih =>
    rw [List.foldl_cons, ih, total_record, List.length_cons]
    omega

/-- Of each class as many events are counted as there are. -/
theorem of_events (events : List Event) (c : EventClass) :
    (ofEvents events).of c = events.countP (·.countedAs = c) := by
  rw [ofEvents, of_foldl]
  cases c <;> exact Nat.zero_add _

/-- Every event is counted once. -/
theorem total_of_events (events : List Event) : (ofEvents events).total = events.length := by
  rw [ofEvents, total_foldl]
  exact Nat.zero_add _

/-- The line of a tally has the number of events of each class. -/
theorem text_of_events (path : String) (events : List Event) :
    let count (c : EventClass) := events.countP (·.countedAs = c)
    (ofEvents events).text path =
      path ++ ": " ++ toString (count .type) ++ " types, " ++ toString (count .addendum) ++ " addenda, " ++
        toString (count .rule) ++ " inflectional rules, " ++ toString (count .letterSet) ++ " letter sets, " ++
        toString (count .comment) ++ " comments\n" := by
  intro count
  simp only [count, ← of_events]
  rfl

end Tally

/-! ## One file -/

namespace File

/-- The file at this path can be opened, and there is no error in it. -/
def parses (path : String) (file : File) : Bool :=
  match file.read .plain path with
  | .ok o => o.error.isNone
  | .error _ => false

/-- The events that are read from the file at this path, up to the error, if there is one. -/
def events (comments : Bool) (path : String) (file : File) : List Event :=
  match file.read { name := none, comments } path with
  | .ok o => o.events
  | .error _ => []

variable (settings : Settings) (path : String) (file : File)

/-- Leaving out comments neither makes an error nor hides one. -/
theorem error_of_read (bytes : List UInt8) (failure : Option String) :
    (((Source.ofBytes bytes failure).read { name := some path, comments := settings.comments }).error).isNone =
      (opened bytes failure).parses path := by
  simp only [parses, read, read_eq_apply, ReadOptions.error_apply, Option.isNone_map]

/-- A file is reported with the events that can be read from it, and with their tally if it is asked for
and all of the file can be read. -/
theorem report_output : (file.report settings path).output =
    String.join ((file.events settings.comments path).map settings.shown) ++
      if settings.summary && file.parses path then
        (Tally.ofEvents (file.events settings.comments path)).text path
      else "" := by
  cases file with
  | refused reason => simp [report, events, parses, read, Report.ofReading]
  | opened bytes failure =>
    rw [← error_of_read settings]
    rfl

/-- A report ends with a failure exactly if its file cannot be parsed. -/
theorem report_failed : (file.report settings path).failed = !file.parses path := by
  cases file with
  | refused reason => rfl
  | opened bytes failure =>
    rw [← error_of_read settings, ← Option.not_isSome, Bool.not_not]
    rfl

end File

/-! ## Several files -/

namespace CommandLine

variable (settings : Settings) (files : String → File)

/-- Files are reported up to the first one that cannot be parsed. -/
theorem report_all_output (paths : List String) : (reportAll settings files paths).output =
    String.join ((paths.takeWhile (fun path => (files path).parses path) ++
      (paths.find? fun path => !(files path).parses path).toList).map
        fun path => ((files path).report settings path).output) := by
  induction paths with
  | nil => rfl
  | cons path paths ih =>
    rw [reportAll, Report.followedBy, File.report_failed]
    cases parses : (files path).parses path with
    | true => simp [parses, ih]
    | false => simp [parses]

theorem report_all_failed (paths : List String) :
    (reportAll settings files paths).failed = true ↔ ∃ path ∈ paths, (files path).parses path = false := by
  induction paths with
  | nil => simp [reportAll, Report.empty]
  | cons path paths ih =>
    rw [reportAll, Report.followedBy, File.report_failed]
    cases parses : (files path).parses path with
    | true => simpa [parses] using ih
    | false => simp [File.report_failed, parses]

end CommandLine

/-! ## Arguments -/

/-- A flag as it is written, in one letter. -/
def Flag.written (flag : Flag) : String := String.ofList ['-', flag.letter]

namespace Arguments

/-- Flags and paths as they can be written: after the flags nothing is read as a flag. -/
def written (arguments : Arguments) : List String := arguments.flags.map Flag.written ++ "--" :: arguments.paths

theorem read_eq_ok_iff {arguments : List String} {a : Arguments} :
    read arguments = .ok a ↔ sort arguments = .ok a ∧ ∀ flag, a.flags.count flag ≤ 1 := by
  have once (a : Arguments) : (Flag.all.find? fun flag => 1 < a.flags.count flag) = none ↔
      ∀ flag, a.flags.count flag ≤ 1 := by
    rw [List.find?_eq_none]
    refine ⟨fun all flag => ?_, fun all flag _ => by simpa using all flag⟩
    have member : flag ∈ Flag.all := by cases flag <;> decide
    simpa using all flag member
  rw [read]
  cases sorted : sort arguments with
  | error misuse => simp [bind, Except.bind]
  | ok a' =>
    simp only [bind, Except.bind]
    constructor
    · intro done
      split at done
      · cases done
      · next found =>
        cases done
        exact ⟨rfl, (once _).mp found⟩
    · rintro ⟨same, all⟩
      cases same
      rw [(once _).mpr all]

theorem sort_flag_cons (flag : Flag) (arguments : List String) :
    sort (flag.written :: arguments) =
      (sort arguments).map fun later => { later with flags := flag :: later.flags } := by
  have apart : flag.written ≠ "--" := by cases flag <;> decide
  have flags : readFlags? flag.written.toList = some (.ok [flag]) := by cases flag <;> rfl
  rw [sort, if_neg apart, flags]
  rfl

theorem sort_written (a : Arguments) : sort a.written = .ok a := by
  obtain ⟨flags, paths⟩ := a
  rw [written]
  induction flags with
  | nil => rfl
  | cons flag flags ih =>
    rw [List.map_cons, List.cons_append, sort_flag_cons, ih]
    rfl

/-- What is read as flags and paths can be written in this way. -/
theorem read_written {a : Arguments} (once : ∀ flag, a.flags.count flag ≤ 1) : read a.written = .ok a :=
  read_eq_ok_iff.mpr ⟨a.sort_written, once⟩

/-- A flag that is not given yet can be given before everything else. -/
theorem read_flag_cons {arguments : List String} {a : Arguments} {flag : Flag} (sorted : read arguments = .ok a)
    (absent : flag ∉ a.flags) : read (flag.written :: arguments) = .ok { a with flags := flag :: a.flags } := by
  obtain ⟨sorted, once⟩ := read_eq_ok_iff.mp sorted
  refine read_eq_ok_iff.mpr ⟨by rw [sort_flag_cons, sorted]; rfl, fun other => ?_⟩
  by_cases same : flag = other
  · subst same
    have one : (flag :: a.flags).count flag = 0 + 1 := by rw [List.count_cons_self, List.count_eq_zero.mpr absent]
    exact Nat.le_of_eq one
  · rw [List.count_cons_of_ne same]
    exact once other

end Arguments

/-! ## Calls -/

namespace CommandLine

variable (files : String → File) {arguments : List String} {a : Arguments}

theorem run_of_read (sorted : Arguments.read arguments = .ok a) (noHelp : .help ∉ a.flags)
    (given : a.paths ≠ []) : run files arguments = reportAll a.settings files a.paths := by
  have noHelp' : a.flags.contains .help = false := by simpa using noHelp
  have given' : a.paths.isEmpty = false := by simpa using given
  rw [run, sorted]
  simp only [noHelp', given', Bool.false_eq_true, if_false]

theorem exit_code_of_read (sorted : Arguments.read arguments = .ok a) (noHelp : .help ∉ a.flags)
    (given : a.paths ≠ []) : exitCode (run files arguments) =
      if ∃ path ∈ a.paths, (files path).parses path = false then 1 else 0 := by
  rw [run_of_read files sorted noHelp given, exitCode]
  simp only [report_all_failed]

/-- A file alone is reported with the flags that are given for all. -/
theorem output_alone (sorted : Arguments.read arguments = .ok a) (noHelp : .help ∉ a.flags) (path : String) :
    (run files { a with paths := [path] }.written).output = ((files path).report a.settings path).output := by
  have once := (Arguments.read_eq_ok_iff.mp sorted).2
  have alone : Arguments.read { a with paths := [path] }.written = .ok { a with paths := [path] } :=
    Arguments.read_written once
  rw [run_of_read files alone noHelp (List.cons_ne_nil _ _), reportAll, reportAll, Report.followedBy]
  split
  · rfl
  · exact String.append_empty

/-- What other arguments change: on the same files the exit code is the same, and so is the output unless
the flags about comments or the summary differ. -/
theorem unchanged_of_same_paths {others : List String} {b : Arguments}
    (sorted : Arguments.read arguments = .ok a) (noHelp : .help ∉ a.flags) (given : a.paths ≠ [])
    (sorted' : Arguments.read others = .ok b) (noHelp' : .help ∉ b.flags) (same : b.paths = a.paths) :
    exitCode (run files others) = exitCode (run files arguments) ∧
      ((.comments ∈ b.flags ↔ .comments ∈ a.flags) → (.summary ∈ b.flags ↔ .summary ∈ a.flags) →
        (run files others).output = (run files arguments).output) := by
  have given' : b.paths ≠ [] := same ▸ given
  refine ⟨?_, fun comments summary => ?_⟩
  · rw [exit_code_of_read files sorted noHelp given, exit_code_of_read files sorted' noHelp' given', same]
  · have comments' : b.settings.comments = a.settings.comments := by
      rw [Bool.eq_iff_iff]
      simpa [Arguments.settings] using comments
    have summary' : b.settings.summary = a.settings.summary := by
      rw [Bool.eq_iff_iff]
      simpa [Arguments.settings] using summary
    have shown : b.settings.shown = a.settings.shown := by
      funext event
      rw [Settings.shown, Settings.shown, summary']
    rw [run_of_read files sorted noHelp given, run_of_read files sorted' noHelp' given', same,
      report_all_output, report_all_output]
    simp only [File.report_output, comments', summary', shown]

end CommandLine

/-- A call composes over its files. What is printed is what a call with the same flags prints for each
file alone, in order, up to and with the first file that cannot be opened or parsed, and the exit code
is one exactly if there is such a file. Of each file the events are printed that can be read from it,
also those before an error, one after the other; if a summary is asked for, there is a line below them
for a file that parses and for no other. It has the number of events of each class, and every event is of
one class. To give one more flag never changes the exit code, and to ask for no warnings does not change
what is printed. -/
theorem call_composes (files : String → File) {arguments : List String} {a : Arguments}
    (sorted : Arguments.read arguments = .ok a) (noHelp : .help ∉ a.flags) (given : a.paths ≠ []) :
    let report := CommandLine.run files arguments
    let alone path := CommandLine.run files { a with paths := [path] }.written
    let parses path := (files path).parses path
    let events path := (files path).events (decide (.comments ∈ a.flags)) path
    let count path (c : EventClass) := (events path).countP (·.countedAs = c)
    report.output = String.join
      ((a.paths.takeWhile parses ++ (a.paths.find? fun path => !parses path).toList).map
        fun path => (alone path).output) ∧
    CommandLine.exitCode report = (if ∃ path ∈ a.paths, parses path = false then 1 else 0) ∧
    (∀ path, ∃ shown,
      List.Forall₂ (Event.ShownAs (decide (.summary ∈ a.flags))) (events path) shown ∧
      (alone path).output = String.join shown ++
        if .summary ∈ a.flags ∧ parses path then
          path ++ ": " ++ toString (count path .type) ++ " types, " ++
            toString (count path .addendum) ++ " addenda, " ++
            toString (count path .rule) ++ " inflectional rules, " ++
            toString (count path .letterSet) ++ " letter sets, " ++
            toString (count path .comment) ++ " comments\n"
        else "") ∧
    (∀ path, count path .type + count path .addendum + count path .rule + count path .letterSet +
      count path .comment = (events path).length) ∧
    ∀ flag ≠ .help, flag ∉ a.flags →
      Arguments.read (flag.written :: arguments) = .ok { a with flags := flag :: a.flags } ∧
      ∀ others b, Arguments.read others = .ok b → b.flags.Perm (flag :: a.flags) → b.paths = a.paths →
        CommandLine.exitCode (CommandLine.run files others) = CommandLine.exitCode report ∧
          (flag = .quiet → (CommandLine.run files others).output = report.output) := by
  intro report alone parses events count
  have single (path : String) : (alone path).output = ((files path).report a.settings path).output :=
    CommandLine.output_alone files sorted noHelp path
  have comments : a.settings.comments = decide (.comments ∈ a.flags) := List.contains_eq_mem ..
  have summary : a.settings.summary = decide (.summary ∈ a.flags) := List.contains_eq_mem ..
  refine ⟨?_, CommandLine.exit_code_of_read files sorted noHelp given, fun path => ?_,
    fun path => ?_, fun flag noHelp' absent =>
      ⟨Arguments.read_flag_cons sorted absent, fun others b sorted' more same => ?_⟩⟩
  · simp only [single]
    rw [← CommandLine.report_all_output, ← CommandLine.run_of_read files sorted noHelp given]
  · refine ⟨(events path).map a.settings.shown, ?_, ?_⟩
    · rw [List.forall₂_map_right_iff, List.forall₂_same, ← summary]
      exact fun event _ => event.shown_as a.settings
    · rw [single, File.report_output, comments, summary, Tally.text_of_events]
      simp only [Bool.and_eq_true, decide_eq_true_eq]
      rfl
  · have total := Tally.total_of_events (events path)
    simp only [Tally.total, count, ← Tally.of_events] at total ⊢
    exact total
  · have noHelp'' : .help ∉ b.flags := by
      rw [more.mem_iff, List.mem_cons]
      exact fun held => held.elim (fun same => noHelp' same.symm) noHelp
    obtain ⟨exit, output⟩ :=
      CommandLine.unchanged_of_same_paths files sorted noHelp given sorted' noHelp'' same
    refine ⟨exit, fun quiet => output ?_ ?_⟩ <;> simp [more.mem_iff, quiet]

/-- The second file is cut off in its third item, and the third file is not there: the two events before
that are shown, without a tally, and nothing is opened after it. Without a summary they are shown in full. -/
theorem call_composes_up_to_a_fault :
    let files := fun path =>
      if path = "a" then File.opened "a := b.\n".toUTF8.toList none
      else if path = "b" then File.opened "c :+ d.\n; e\nf :=".toUTF8.toList none
      else File.refused "No such file"
    let arguments := ["a", "-sc", "b", "c"]
    let report := CommandLine.run files arguments
    report.output = "type a [b] 0 features, 0 coreferences\n" ++
      "a: 1 types, 0 addenda, 0 inflectional rules, 0 letter sets, 0 comments\n" ++
      "addendum c [d] 0 features, 0 coreferences\ncomment at line 2\n" ∧
    CommandLine.exitCode report = 1 ∧
    CommandLine.exitCode (CommandLine.run files ("-q" :: arguments)) = 1 ∧
    (CommandLine.run files ("-q" :: arguments)).output = report.output ∧
    (CommandLine.run files ["-c", "b", "a"]).output = "c :+ d.\n\n; e\n" := by
  intro files arguments report
  let a : Arguments := { flags := [.summary, .comments], paths := ["a", "b", "c"] }
  have sorted : Arguments.read arguments = .ok a := rfl
  obtain ⟨output, exit, -, -, more⟩ := call_composes files sorted (by decide) (List.cons_ne_nil _ _)
  have fails : CommandLine.exitCode report = 1 := by
    rw [exit]
    decide +kernel
  obtain ⟨quietly, unchanged⟩ := more .quiet (by decide) (by decide)
  obtain ⟨exit', output'⟩ := unchanged _ _ quietly (List.Perm.refl _) rfl
  refine ⟨?_, fails, exit'.trans fails, output' rfl, by decide +kernel⟩
  rw [output]
  decide +kernel

end TypeDescription
