import CrossRef.Command

/-!
# Files of sources

The rows of the files of sources go behind the arguments of a command line, in the order of the options,
and every row is taken for an argument.  So is a blank one: it stands for the base directory, and what
is found there is indexed with the rest.  The rows select what they name exactly if none of them is blank
or nothing is found in the base directory.
-/

namespace CrossRef

open Storage

namespace Choice

/-- The file that an option has the index written to. -/
def output? : Choice → Option String
  | .output path => some path
  | _ => none

end Choice

/-- A workspace with the settings that some options leave. -/
def Workspace.choosing (workspace : Workspace) (choices : List Choice) : Workspace :=
  { workspace with
    settings :=
      { workspace.settings with
        stringSymbols := workspace.settings.stringSymbols || choices.contains .stringSymbols } }

namespace Command

/-- The rows of the files of sources among some options, in the order of the options. -/
def listedRows (disk : Disk) (choices : List Choice) : List String :=
  choices.flatMap fun
    | .sources path =>
      match disk.read path with
      | .ok text => sourceRows text
      | .error _ => []
    | _ => []

/-- The request that some options make of another one. -/
def Request.choosing (request : Request) (disk : Disk) (choices : List Choice) : Request where
  dump := request.dump || choices.contains .dump
  recurse := request.recurse || choices.contains .recurse
  output := (choices.filterMap Choice.output?).getLast?.getD request.output
  arguments := request.arguments ++ listedRows disk choices

theorem choosing_workspace_append (workspace : Workspace) (first second : List Choice) :
    (workspace.choosing first).choosing second = workspace.choosing (first ++ second) := by
  simp [Workspace.choosing, Bool.or_assoc]

theorem choosing_request_append (request : Request) (disk : Disk) (first second : List Choice) :
    (request.choosing disk first).choosing disk second = request.choosing disk (first ++ second) := by
  simp [Request.choosing, listedRows, Bool.or_assoc]

/-- One option that does not end the run. -/
theorem choose_cons {workspace : Workspace} {choice : Choice} (notVersion : choice ≠ .version)
    (readable : ∀ path, choice = .sources path → ∃ text, workspace.disk.read path = .ok text)
    (request : Request) (rest : List Choice) :
    choose workspace request (choice :: rest) =
      choose (workspace.choosing [choice]) (request.choosing workspace.disk [choice]) rest := by
  cases choice with
  | version => exact absurd rfl notVersion
  | dump | recurse | stringSymbols | output path =>
      simp [choose, Workspace.choosing, Request.choosing, listedRows, Choice.output?]
  | sources path =>
      rcases readable path rfl with ⟨text, read⟩
      simp [choose, Workspace.choosing, Request.choosing, listedRows, Choice.output?, read]

/-- Options that do not end the run add up to a request. -/
theorem choose_of_readable {choices : List Choice} (noVersion : Choice.version ∉ choices)
    {workspace : Workspace} (request : Request)
    (readable : ∀ path, Choice.sources path ∈ choices → ∃ text, workspace.disk.read path = .ok text) :
    choose workspace request choices =
      (workspace.choosing choices, .ok (request.choosing workspace.disk choices)) := by
  induction choices generalizing workspace request with
  | nil => simp [choose, Workspace.choosing, Request.choosing, listedRows]
  | cons choice rest ih =>
      rw [List.mem_cons, not_or] at noVersion
      have sameDisk : (workspace.choosing [choice]).disk = workspace.disk := rfl
      rw [choose_cons (Ne.symm noVersion.1), ih noVersion.2, sameDisk, choosing_workspace_append,
        choosing_request_append, List.singleton_append]
      · intro path member
        exact readable path (List.mem_cons_of_mem choice member)
      · rintro path rfl
        exact readable path List.mem_cons_self

/-! ## Rows that are left out -/

section

variable {Row File : Type}

theorem flatMap_filter_sublist (keep : Row → Bool) (files : Row → List File) (rows : List Row) :
    ((rows.filter keep).flatMap files).Sublist (rows.flatMap files) := by
  induction rows with
  | nil => exact List.Sublist.refl []
  | cons row rest ih =>
      cases kept : keep row with
      | true =>
          rw [List.filter_cons_of_pos kept, List.flatMap_cons, List.flatMap_cons]
          exact (List.Sublist.refl (files row)).append ih
      | false =>
          rw [List.filter_cons_of_neg (Bool.not_eq_true _ ▸ kept), List.flatMap_cons]
          exact ih.trans (List.sublist_append_right _ _)

/-- Leaving rows out changes nothing exactly if they give nothing. -/
theorem flatMap_filter_eq_iff {keep : Row → Bool} {files : Row → List File} {rows : List Row} :
    rows.flatMap files = (rows.filter keep).flatMap files ↔
      ∀ row ∈ rows, keep row = false → files row = [] := by
  induction rows with
  | nil => simp
  | cons row rest ih =>
      cases kept : keep row with
      | true => simp [kept, ih]
      | false =>
          have shorter := (flatMap_filter_sublist keep files rest).length_le
          rw [List.filter_cons_of_neg (Bool.not_eq_true _ ▸ kept), List.flatMap_cons, List.forall_mem_cons]
          constructor
          · intro same
            have lengths := congrArg List.length same
            rw [List.length_append] at lengths
            have nothing : files row = [] := List.eq_nil_of_length_eq_zero (by omega)
            rw [nothing, List.nil_append] at same
            exact ⟨fun _ => nothing, ih.mp same⟩
          · rintro ⟨nothing, others⟩
            rw [nothing kept, List.nil_append]
            exact ih.mpr others

end

/-- A blank row stands for the sources of the base directory. -/
theorem ofArgument_blank_eq_nil_iff (disk : Disk) (recurse : Bool) :
    Discovery.ofArgument disk recurse "" = [] ↔
      ∀ own entries, disk.find (join disk.base "") = .ok (.directory own entries) →
        Discovery.ofEntries recurse "" entries = [] := by
  unfold Discovery.ofArgument
  split
  next own entries found =>
    constructor
    · rintro nothing _ _ same
      cases found.symm.trans same
      exact nothing
    · intro each
      exact each own entries found
  next other =>
    constructor
    · intro _ own entries found
      exact absurd found (other own entries)
    · intro _
      rfl

/-- Leaving the blank rows out changes nothing exactly if there are none or if a blank row stands for
nothing. -/
theorem ofArguments_filter_eq_iff (disk : Disk) (recurse : Bool) (arguments rows : List String) :
    Discovery.ofArguments disk recurse (arguments ++ rows) =
        Discovery.ofArguments disk recurse (arguments ++ rows.filter (· ≠ "")) ↔
      (∀ row ∈ rows, row ≠ "") ∨ Discovery.ofArgument disk recurse "" = [] := by
  unfold Discovery.ofArguments
  rw [List.flatMap_append, List.flatMap_append, List.append_cancel_left_eq, flatMap_filter_eq_iff]
  simp only [decide_eq_false_iff_not, ne_eq, Decidable.not_not]
  constructor
  · intro nothing
    by_cases blank : "" ∈ rows
    · exact Or.inr (nothing "" blank rfl)
    · left
      rintro row member rfl
      exact blank member
  · rintro (noBlank | nothing) row member isBlank
    · exact absurd isBlank (noBlank row member)
    · rw [isBlank]
      exact nothing

/-- The files of a command line that names files of sources are those that its arguments and, behind them,
the rows of these files stand for.  The blank rows add nothing exactly if there are none or if the base
directory has no sources to be found. -/
theorem run_sourceLists {workspace : Workspace} {line : List String} {choices : List Choice}
    {positional : List String} (accepted : Options.parse line = some (choices, positional))
    (noVersion : Choice.version ∉ choices)
    (readable : ∀ path, Choice.sources path ∈ choices → ∃ text, workspace.disk.read path = .ok text)
    (listed : ∃ row ∈ listedRows workspace.disk choices, row ≠ "") :
    let disk := workspace.disk
    let rows := listedRows disk choices
    let request := ({ arguments := positional } : Request).choosing disk choices
    run workspace line = perform (workspace.choosing choices) request ∧
      requestedFiles disk request = Discovery.ofArguments disk request.recurse (positional ++ rows) ∧
      (requestedFiles disk request =
          Discovery.ofArguments disk request.recurse (positional ++ rows.filter (· ≠ "")) ↔
        (∀ row ∈ rows, row ≠ "") ∨
          ∀ own entries, disk.find (join disk.base "") = .ok (.directory own entries) →
            Discovery.ofEntries request.recurse "" entries = []) := by
  intro disk rows request
  have nonempty : request.arguments.isEmpty = false := by
    rcases listed with ⟨row, member, _⟩
    rw [List.isEmpty_eq_false_iff_exists_mem]
    exact ⟨row, List.mem_append_right positional member⟩
  have files : requestedFiles disk request =
      Discovery.ofArguments disk request.recurse (positional ++ rows) := by
    rw [requestedFiles, nonempty]
    rfl
  refine ⟨?_, files, ?_⟩
  · rw [run, accepted]
    simp only [choose_of_readable noVersion _ readable]
    rfl
  · rw [files, ← ofArgument_blank_eq_nil_iff]
    exact ofArguments_filter_eq_iff disk request.recurse positional rows

/-- A workspace with two sources and a file of sources that lists one of them in front of a blank row. -/
def blankRowWorkspace : Workspace where
  disk := .ofEntries "/w" [.file "a.py" "", .file "b.py" "", .file "list" "a.py\n\n"]
  reader := .ofTable []

theorem listedRows_blankRow :
    listedRows blankRowWorkspace.disk [.sources "list"] = ["a.py", ""] := by
  decide +kernel

theorem run_sourceLists_blankRow :
    let request := ({ arguments := [] } : Request).choosing blankRowWorkspace.disk [.sources "list"]
    run blankRowWorkspace ["-i", "list"] = perform (blankRowWorkspace.choosing [.sources "list"]) request ∧
      requestedFiles blankRowWorkspace.disk request = ["a.py", "a.py", "b.py"] := by
  have accepted : Options.parse ["-i", "list"] = some ([.sources "list"], []) := by decide +kernel
  have readable (path : String) (member : Choice.sources path ∈ [Choice.sources "list"]) :
      ∃ text, blankRowWorkspace.disk.read path = .ok text := by
    cases List.mem_singleton.mp member
    have opens : (blankRowWorkspace.disk.read "list").toOption = some "a.py\n\n" := by decide +kernel
    cases isRead : blankRowWorkspace.disk.read "list" with
    | ok text => exact ⟨text, rfl⟩
    | error fault =>
        rw [isRead] at opens
        cases opens
  have listed : ∃ row ∈ listedRows blankRowWorkspace.disk [.sources "list"], row ≠ "" := by
    rw [listedRows_blankRow]
    exact ⟨"a.py", by decide, by decide⟩
  exact ⟨(run_sourceLists accepted (by decide) readable listed).1, by decide +kernel⟩

/-- A source that no row lists is indexed because of a blank row. -/
theorem blankRow_indexed :
    listedRows blankRowWorkspace.disk [.sources "list"] = ["a.py", ""] ∧
      Discovery.ofArguments blankRowWorkspace.disk false ["a.py"] = ["a.py"] ∧
      (run blankRowWorkspace ["-i", "list"]).written = [("/w/cscope.out",
        IndexFile.render "/w" (["a.py", "a.py", "b.py"].map Indexing.fileMark ++ [closingMark])
          ["a.py", "a.py", "b.py"])] := by
  refine ⟨listedRows_blankRow, ?_, ?_⟩
  · decide +kernel
  · decide +kernel

end Command

end CrossRef
