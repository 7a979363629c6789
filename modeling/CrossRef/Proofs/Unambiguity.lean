import CrossRef.Command
import CrossRef.Proofs.Contributions
import CrossRef.Proofs.Decoding

/-!
# An index file says one thing only

From the text of an index file one can tell in which directory it was made, of which files, and what
lines with which items each of them has.  The text is a sequence of ended rows, file by file: the
line feed in front of a file mark ends the row before it, be it the header, an empty row or the row
of a missing line.  So what a file contributes is read back in front of whatever the following files
contribute, and the whole is an induction over the files.
-/

namespace CrossRef

open Storage IndexFile

namespace State

/-- What the finished lines of a state say. -/
def content (state : State) : List Block :=
  state.blocks.map fun block => block.map fun line => (line.number, line.items)

end State

namespace IndexFile

theorem readRows_mark {rows : List Row} {found : List Block × List Record}
    (read : readRows .mark rows = some found) : found.1 = [] := by
  cases rows with
  | nil => cases read
  | cons row rest =>
      simp only [readRows] at read
      split at read
      · cases read
        rfl
      · rcases Option.map_eq_some_iff.mp read with ⟨_, _, rfl⟩
        rfl
      · cases read

/-- Legible lines lead from block to block. -/
theorem leads_blocks {blocks : List (Option Line)} (legible : State.LegibleLines blocks) :
    Leads (String.join (State.rendered { blocks := blocks })).toList .start .start fun found =>
      (State.content { blocks := blocks } ++ found.1, found.2) := by
  induction blocks with
  | nil => exact Leads.nil .start
  | cons block later ih =>
      rcases legible block List.mem_cons_self with ⟨line, rfl, hasSymbol, lineLegible⟩
      have leadsOn := ih fun other member => legible other (List.mem_cons_of_mem _ member)
      have leads := (leads_line hasSymbol lineLegible).append leadsOn
      simpa [State.rendered, State.content, Function.comp_def] using leads

/-- What a state has finished leads to the next file mark, once its last row is ended. -/
theorem leads_state {state : State} (legible : state.Legible) :
    Leads ((String.join state.rendered).toList ++ ['\n']) .start .mark fun found =>
      (state.content ++ found.1, found.2) := by
  rcases legible with unbroken | broken
  · have empty : Leads ([] ++ ['\n']) .start .mark id := by
      apply leads_row List.not_mem_nil
      intro rest
      simp [readRows]
    exact (leads_blocks unbroken.blocks).append empty
  · rcases broken.blocks with ⟨front, blocks, frontLegible⟩
    have gap : Leads (missing ++ ['\n']) .start .mark fun found => (none :: found.1, found.2) := by
      apply leads_row (by decide)
      intro rest
      rw [readRows, if_neg (by decide), if_pos rfl]
    have leads := (leads_blocks frontLegible).append gap
    simpa [State.rendered, State.content, blocks, missing, Function.comp_def] using leads

/-- In front of a file mark no blocks are found. -/
theorem Leads.of_mark {text : List Char} {here : Place}
    {find same : List Block × List Record → List Block × List Record}
    (leads : Leads text here .mark find)
    (agree : ∀ records, find ([], records) = same ([], records)) : Leads text here .mark same := by
  rcases leads with ⟨rows, oneRow, isText, read⟩
  refine ⟨rows, oneRow, isText, ?_⟩
  intro rest
  rw [read]
  apply Option.map_congr
  rintro ⟨blocks, records⟩ found
  have none : blocks = [] := readRows_mark found
  rw [none]
  exact agree records

/-- A file mark leads to the first block of its file. -/
theorem leads_fileMark {path : String} (named : path ≠ "") (oneRow : '\n' ∉ path.toList) :
    Leads ("\t@" ++ path ++ "\n\n").toList .mark .start fun found =>
      ([], ⟨path, found.1⟩ :: found.2) := by
  have name : Leads (("\t@" ++ path).toList ++ ['\n']) .mark .gap fun found =>
      ([], ⟨path, found.1⟩ :: found.2) := by
    apply leads_row
    · simpa using oneRow
    · intro rest
      have letters : ("\t@" ++ path).toList = '\t' :: '@' :: path.toList := by simp
      rw [letters, readRows, String.ofList_toList]
      intro noName
      apply named
      simpa using noName
  have gap : Leads ([] ++ ['\n']) .gap .start id := by
    apply leads_row List.not_mem_nil
    intro rest
    simp [readRows]
  simpa using name.append gap

theorem tenDigits_isDigit (number : Nat) :
    ∀ char ∈ (tenDigits number).toList, char.isDigit = true := by
  intro char member
  simp only [tenDigits, String.toList_ofList, List.mem_append] at member
  rcases member with isZero | isDigit
  · rw [(List.mem_replicate.mp isZero).2]
    decide
  · exact Line.isDigit_of_mem isDigit

/-- The directory is read back from a header. -/
theorem readHeader_header (directory : String) (length : Nat) :
    readHeader (header directory length).toList = directory := by
  generalize isDigits : tenDigits (directory.length + headerLength + length) = digits
  have all : ∀ char ∈ digits.toList.reverse, char.isDigit = true := by
    intro char member
    rw [← isDigits, List.mem_reverse] at member
    exact tenDigits_isDigit _ char member
  have letters : (header directory length).toList =
      "cscope 15 ".toList ++ directory.toList ++ " -c ".toList ++ digits.toList := by
    simp [header, isDigits]
  have noDigit : Char.isDigit ' ' = false := by decide
  rw [letters, readHeader, List.reverse_append, List.dropWhile_append_of_pos all]
  simp [noDigit]

theorem header_oneRow {directory : String} (oneRow : '\n' ∉ directory.toList) (length : Nat) :
    '\n' ∉ (header directory length).toList := by
  intro broken
  simp only [header, String.toList_append, List.mem_append] at broken
  rcases broken with ((inName | inDirectory) | inOption) | inDigits
  · revert inName
    decide
  · exact oneRow inDirectory
  · revert inOption
    decide
  · have feedIsDigit := tenDigits_isDigit _ _ inDigits
    cases feedIsDigit

/-- An index file is read back if its index leads from the header to the closing mark. -/
theorem decode_render {directory : String} {blocks files : List String} {text : List Char}
    {records : List Record} (oneRow : '\n' ∉ directory.toList)
    (isText : (String.join blocks).toList ++ ['\n'] = '\n' :: text)
    (leads : Leads text .mark .mark fun found => ([], records ++ found.2)) :
    decode (render directory (blocks ++ [Command.closingMark]) files) =
      some ⟨directory, records⟩ := by
  rcases leads with ⟨rows, rowsOneRow, rfl, read⟩
  generalize isFirst : header directory (String.join (blocks ++ [Command.closingMark])).length = first
  have ended : ∃ tail, (trailer files).toList = '\n' :: tail := by
    simp [trailer]
  rcases ended with ⟨tail, isTail⟩
  have whole : (render directory (blocks ++ [Command.closingMark]) files).toList =
      endRows (first.toList :: (rows ++ [['\t', '@']])) ++ tail := by
    have closing : Command.closingMark.toList = ['\n'] ++ ['\t', '@'] := by decide
    have index : (String.join (blocks ++ [Command.closingMark])).toList =
        '\n' :: (endRows rows ++ ['\t', '@']) := by
      rw [String.join_append, String.toList_append, ← List.cons_append, ← isText, List.append_assoc,
        ← closing]
      simp
    simp only [render, isFirst, String.toList_append, isTail, index]
    simp [endRows]
  have oneRows : ∀ row ∈ first.toList :: (rows ++ [['\t', '@']]), '\n' ∉ row := by
    intro row member
    rcases List.mem_cons.mp member with rfl | inIndex
    · rw [← isFirst]
      exact header_oneRow oneRow _
    · rcases List.mem_append.mp inIndex with inRows | isLast
      · exact rowsOneRow row inRows
      · rw [List.mem_singleton.mp isLast]
        decide
  rw [decode, whole, splitOn_endRows oneRows]
  simp only [List.cons_append, List.append_assoc, read]
  rw [← isFirst, readHeader_header]
  simp [readRows]

end IndexFile

namespace Indexing

/-- What an index says of a file, by its name and what opening it gave. -/
def fileRecord (settings : Settings) (reader : Reader) (path : String) :
    Except Fault String → Option Record
  | .error _ => none
  | .ok source => some ⟨path, ((finalState? settings reader source).map State.content).getD []⟩

/-- What reading a file gives is legible. -/
def LegibleSource (reader : Reader) (content : Except Fault String) : Prop :=
  ∀ source tree, content = .ok source → reader (prepare source) = .ok tree → (toNodes tree).Legible

instance (reader : Reader) :
    (content : Except Fault String) → Decidable (LegibleSource reader content)
  | .error _ => .isTrue nofun
  | .ok source =>
    match read : reader (prepare source) with
    | .error _ => .isTrue fun _ _ same found => by
        cases same
        rw [read] at found
        cases found
    | .ok tree => decidable_of_iff (toNodes tree).Legible
        ⟨fun legible _ _ same found => by
            cases same
            rw [read] at found
            cases found
            exact legible,
          fun legible => legible source tree rfl read⟩

variable {reader : Reader} {disk : Disk}

theorem finalState?_legible {settings : Settings} {source : String} {state : State}
    (legible : LegibleSource reader (.ok source))
    (ended : finalState? settings reader source = some state) : state.Legible := by
  unfold finalState? at ended
  split at ended
  · cases ended
  · split at ended
    · cases ended
    next tree read =>
      simp only at ended
      split at ended
      · cases ended
      next sound =>
        cases ended
        exact Walk.ofTree_legible (legible source tree rfl read) (by simpa using sound)

/-- What a file contributes ends the row before it and leads to the next file mark. -/
theorem exists_fileText (settings : Settings) {path : String} {content : Except Fault String}
    (named : path ≠ "")
    (oneRow : '\n' ∉ path.toList) (legible : LegibleSource reader content) :
    ∃ text, (String.join (fileBlocks settings reader path content)).toList ++ ['\n'] = '\n' :: text ∧
      Leads text .mark .mark fun found =>
        ([], (fileRecord settings reader path content).toList ++ found.2) := by
  cases content with
  | error fault => exact ⟨[], rfl, (Leads.nil .mark).of_mark fun _ => rfl⟩
  | ok source =>
      have marked := leads_fileMark named oneRow
      have contribution :
          Leads ((String.join (sourceBlocks settings reader source)).toList ++ ['\n']) .start .mark
            fun found =>
              (((finalState? settings reader source).map State.content).getD [] ++ found.1,
                found.2) := by
        unfold sourceBlocks
        cases ended : finalState? settings reader source with
        | none =>
            apply leads_row List.not_mem_nil
            intro rest
            simp [readRows]
        | some state => exact leads_state (finalState?_legible legible ended)
      refine ⟨_, ?_, (marked.append contribution).of_mark ?_⟩
      · simp [fileBlocks, fileMark, Mark.render, Mark.sign]
      · intro records
        simp [fileRecord]

/-- What some files contribute ends the row before it and leads to the next file mark. -/
theorem exists_filesText (settings : Settings) {paths : List String}
    (named : ∀ path ∈ paths, path ≠ "" ∧ '\n' ∉ path.toList)
    (legible : ∀ path ∈ paths, LegibleSource reader (opened disk path)) :
    ∃ text, (String.join (paths.flatMap fun path =>
        fileBlocks settings reader path (opened disk path))).toList ++ ['\n'] = '\n' :: text ∧
      Leads text .mark .mark fun found =>
        ([], (paths.filterMap fun path => fileRecord settings reader path (opened disk path)) ++
          found.2) := by
  induction paths with
  | nil => exact ⟨[], rfl, (Leads.nil .mark).of_mark fun _ => rfl⟩
  | cons path rest ih =>
      rcases named path List.mem_cons_self with ⟨hasName, oneRow⟩
      rcases exists_fileText settings hasName oneRow (legible path List.mem_cons_self) with
        ⟨text, isText, leads⟩
      rcases ih (fun other member => named other (List.mem_cons_of_mem _ member))
        (fun other member => legible other (List.mem_cons_of_mem _ member)) with
        ⟨later, isLater, leadsOn⟩
      refine ⟨text ++ later, ?_, (leads.append leadsOn).of_mark ?_⟩
      · rw [List.flatMap_cons, String.join_append, String.toList_append, List.append_assoc, isLater,
          ← List.cons_append, ← isText]
        simp
      · intro records
        cases contributed : fileRecord settings reader path (opened disk path) with
        | none => simp [contributed]
        | some record => simp [contributed]

namespace Job

/-- The index file that the run leads to. -/
def text (job : Job) : String :=
  render job.disk.base (job.indexing.blocks ++ [Command.closingMark]) job.indexing.files

/-- What the index file is to say. -/
def contents (job : Job) : Contents where
  directory := job.disk.base
  records := job.paths.filterMap fun path =>
    fileRecord job.settings job.reader path (opened job.disk path)

/-- A run that is not cut short, in a directory, over files and to trees whose names and texts an
index can hold. -/
structure Legible (job : Job) : Prop where
  finished : job.indexing.failure = none
  directory : '\n' ∉ job.disk.base.toList
  named : ∀ path ∈ job.paths, path ≠ "" ∧ '\n' ∉ path.toList
  sources : ∀ path ∈ job.paths, LegibleSource job.reader (opened job.disk path)

/-- The run that a request leads to. -/
def ofRequest (workspace : Workspace) (request : Command.Request) : Job where
  settings := workspace.settings
  reader := workspace.reader
  disk := workspace.disk
  dump := request.dump
  paths := Command.requestedFiles workspace.disk request

theorem decode_eq {job : Job} (legible : job.Legible) : decode job.text = some job.contents := by
  rcases addFiles_contributions legible.finished with ⟨blocks, _⟩
  rcases exists_filesText job.settings legible.named legible.sources with ⟨text, isText, leads⟩
  rw [← blocks] at isText
  exact decode_render legible.directory isText leads

/-- The command writes the index file of its run. -/
theorem written_perform {workspace : Workspace} {request : Command.Request} {changed : Disk}
    (finished : (ofRequest workspace request).indexing.failure = none)
    (write : workspace.disk.write (join workspace.disk.base request.output)
      (ofRequest workspace request).text = .ok changed) :
    (Command.perform workspace request).written.map Prod.snd =
      [(ofRequest workspace request).text] := by
  unfold indexing ofRequest at finished
  unfold text indexing ofRequest at write ⊢
  simp only at finished write ⊢
  simp only [Command.perform, finished, write]
  rfl

/-- An index file can be decoded without ambiguity.  The text that a run leads to gives back the
directory, the names of the files in order, and for each of them its lines, with the number and the
items of each; two runs with the same text had the same contents; and the text is what the command
writes. -/
theorem decode_text (job : Job) (legible : job.Legible) :
    decode job.text = some job.contents ∧
      (∀ other : Job, other.Legible → other.text = job.text → other.contents = job.contents) ∧
      ∀ workspace request changed, ofRequest workspace request = job →
        workspace.disk.write (join workspace.disk.base request.output) job.text = .ok changed →
        (Command.perform workspace request).written.map Prod.snd = [job.text] := by
  refine ⟨decode_eq legible, ?_, ?_⟩
  · intro other otherLegible sameText
    have decoded := decode_eq otherLegible
    rw [sameText, decode_eq legible] at decoded
    exact (Option.some.inj decoded).symm
  · rintro workspace request changed rfl write
    exact written_perform legible.finished write

/-- A run over a file with a function around a string of two rows, and over one that does not exist.
-/
def functionAndGone : Job where
  settings := {}
  reader := .ofTable [("f\n", .ok (.node [.int 257, .node [.int 262,
    .node [.int 1, .text "def", .int 1], .node [.int 1, .text "f", .int 1],
    .node [.int 7, .text "(", .int 1], .node [.int 8, .text ")", .int 1],
    .node [.int 5, .text "", .int 2], .node [.int 3, .text "'\n'", .int 2],
    .node [.int 6, .text "", .int 3]], .node [.int 0, .text "", .int 3]]))]
  disk := .ofEntries "/d" [.file "a.py" "f"]
  dump := false
  paths := ["a.py", "b.py"]

theorem decode_text_functionAndGone :
    functionAndGone.Legible ∧
      decode functionAndGone.text = some ⟨"/d", [⟨"a.py",
        [some (1, [.plain "def", .symbol (some .definition) "f", .plain "( )"]),
          some (2, [.plain "'\\n'", .symbol (some .functionEnd) ""])]⟩]⟩ := by
  have legible : functionAndGone.Legible :=
    ⟨by decide +kernel, by decide, by decide, by decide +kernel⟩
  refine ⟨legible, (decode_text functionAndGone legible).1.trans ?_⟩
  decide +kernel

end Job

end Indexing

end CrossRef
