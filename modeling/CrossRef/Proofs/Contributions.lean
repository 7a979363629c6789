import CrossRef.Proofs.LineForm
import CrossRef.Proofs.NamedKinds

/-!
# What each file contributes

Files are indexed one after the other into the same buffers, but no file looks at what the others
left there.  So indexing behind something is indexing from the start with that something put in
front, which is the law `addFiles_eq_behind`; and a run that is not cut short is the concatenation
of what the single files contribute.  A file that cannot be opened contributes nothing.  Any other
contributes its name and its mark, followed by the blocks of its source, if the source can be read
and walked to its end.
-/

namespace CrossRef

open Storage

/-! ## Faults of a dump -/

namespace Element

mutual

theorem hashable_condemns_nothing (element : Element) {fault : Fault}
    (failed : element.hashable = .error fault) : fault.condemnsSource = false := by
  cases element with
  | list elements =>
      cases failed
      rfl
  | node elements => exact allHashable_condemns_nothing elements (by simpa [hashable] using failed)
  | _ => simp [hashable] at failed

theorem allHashable_condemns_nothing (elements : List Element) {fault : Fault}
    (failed : allHashable elements = .error fault) : fault.condemnsSource = false := by
  cases elements with
  | nil => simp [allHashable] at failed
  | cons element rest =>
      simp only [allHashable] at failed
      split at failed
      · exact allHashable_condemns_nothing rest failed
      next refused =>
        cases failed
        exact hashable_condemns_nothing element refused

end

theorem nameOf_condemns_nothing {grammar : Grammar} {kind : Element} {fault : Fault}
    (failed : grammar.nameOf kind = .error fault) : fault.condemnsSource = false := by
  unfold Grammar.nameOf at failed
  split at failed
  next refused =>
    cases failed
    exact hashable_condemns_nothing kind refused
  · split at failed
    · cases failed
    · cases failed
      rfl

theorem kind_condemns_nothing {element : Element} {fault : Fault}
    (failed : element.kind = .error fault) : fault.condemnsSource = false := by
  unfold kind entry at failed
  split at failed
  case h_4 =>
    cases failed
    rfl
  all_goals
    split at failed
    · cases failed
    · cases failed
      rfl

theorem kindFault?_condemns_nothing {grammar : Grammar} {elements : List Element} {fault : Fault}
    (failed : kindFault? grammar elements = some fault) : fault.condemnsSource = false := by
  cases elements with
  | nil =>
      cases failed
      rfl
  | cons kind rest =>
      rw [kindFault?] at failed
      split at failed
      next refused =>
        cases failed
        exact nameOf_condemns_nothing refused
      · cases failed

theorem refuse_condemns_nothing {grammar : Grammar} {tree : Element} {fault : Fault}
    (failed : (tree.refuse grammar).fault = some fault) : fault.condemnsSource = false := by
  unfold refuse at failed
  split at failed
  next refused =>
    cases failed
    exact kind_condemns_nothing refused
  · split at failed
    next refused =>
      cases failed
      exact nameOf_condemns_nothing refused
    · cases failed
      rfl

theorem rename_condemns_nothing {grammar : Grammar} {tree : Element} {fault : Fault}
    (failed : (tree.rename grammar).fault = some fault) : fault.condemnsSource = false := by
  cases tree with
  | list elements =>
      rcases Option.map_eq_some_iff.mp failed with ⟨⟨place, reason⟩, stopped, rfl⟩
      rcases rename_stop grammar stopped with ⟨given, _, _, unnamed⟩
      exact kindFault?_condemns_nothing unnamed
  | null | bool value | int value | float value | text value | node elements =>
      exact refuse_condemns_nothing failed

end Element

/-- That a tree cannot be dumped is never held against its source. -/
theorem Dump.ofLists_condemns_nothing {grammar : Grammar} {tree : Element} {fault : Fault}
    (failed : Dump.ofLists grammar tree = .error fault) : fault.condemnsSource = false := by
  unfold Dump.ofLists Dump.textOf at failed
  split at failed
  · cases failed
  next refused =>
    cases failed
    exact Element.rename_condemns_nothing refused

namespace Indexing

/-! ## Indexing behind something -/

/-- Puts one indexing behind another; how the second ended is how both end. -/
def behind (first second : Indexing) : Indexing where
  blocks := first.blocks ++ second.blocks
  files := first.files ++ second.files
  count := first.count + second.count
  printed := first.printed ++ second.printed
  sources := first.sources ++ second.sources
  failure := second.failure

theorem behind_assoc (first second third : Indexing) :
    (first.behind second).behind third = first.behind (second.behind third) := by
  simp [behind, String.append_assoc, Int.add_assoc]

theorem behind_empty {indexing : Indexing} (unfailed : indexing.failure = none) :
    indexing.behind {} = indexing := by
  rcases indexing with ⟨blocks, files, count, printed, sources, failure⟩
  cases unfailed
  simp [behind]

variable {settings : Settings} {reader : Reader} {disk : Disk} {dump : Bool}

/-- The state in which the walk of a source ends: there is none if the source is empty, cannot be
read, or has a tree in which the walk fails. -/
def finalState? (settings : Settings) (reader : Reader) (source : String) : Option State :=
  if source.isEmpty then none
  else
    match reader (prepare source) with
    | .error _ => none
    | .ok tree =>
      let walk := Walk.ofTree settings (toNodes tree)
      if walk.fault.isSome then none else some walk.state

/-- The blocks that a source text contributes. -/
def sourceBlocks (settings : Settings) (reader : Reader) (source : String) : List String :=
  ((finalState? settings reader source).map State.rendered).getD []

/-- The blocks that a file contributes, by its name and what opening it gave. -/
def fileBlocks (settings : Settings) (reader : Reader) (path : String) :
    Except Fault String → List String
  | .error _ => []
  | .ok source => fileMark path :: sourceBlocks settings reader source

/-- The names that a file contributes, by its name and what opening it gave. -/
def fileNames (path : String) : Except Fault String → List String
  | .error _ => []
  | .ok _ => [path]

/-- What opening a file gives. -/
def opened (disk : Disk) (path : String) : Except Fault String :=
  disk.read (join disk.base path)

theorem addSource_eq_behind {indexing : Indexing} (unfailed : indexing.failure = none)
    (source : String) :
    indexing.addSource settings reader dump source =
      indexing.behind (({} : Indexing).addSource settings reader dump source) := by
  unfold addSource
  split
  · exact (behind_empty unfailed).symm
  · simp only
    split
    · simp [behind, hand, fail]
    · split
      · simp [behind, hand, fail]
      · split
        · simp [behind, hand, print, fail]
        · simp [behind, hand, print, unfailed]

/-- An indexing with the mark of a file behind its blocks. -/
def marked (indexing : Indexing) (path : String) : Indexing :=
  { indexing with
    blocks := indexing.blocks ++ [fileMark path]
    files := indexing.files ++ [path]
    count := indexing.count + 1 }

theorem marked_eq_behind {indexing : Indexing} (unfailed : indexing.failure = none) (path : String) :
    indexing.marked path = indexing.behind (({} : Indexing).marked path) := by
  simp [marked, behind, unfailed]

theorem addFile_of_refused {path : String} {fault : Fault} (refused : opened disk path = .error fault)
    (indexing : Indexing) :
    indexing.addFile settings reader disk dump path =
      indexing.print ("pycscope.py: " ++ fault.message ++ "\n") := by
  unfold opened at refused
  unfold addFile
  simp only [refused]

theorem marked_addSource {indexing : Indexing} (unfailed : indexing.failure = none)
    (path source : String) :
    (indexing.marked path).addSource settings reader dump source =
      (indexing.marked path).behind (({} : Indexing).addSource settings reader dump source) := by
  apply addSource_eq_behind
  exact unfailed

theorem addFile_of_sound {indexing : Indexing} {path source : String}
    (unfailed : indexing.failure = none) (found : opened disk path = .ok source)
    (sound : (({} : Indexing).addSource settings reader dump source).failure = none) :
    indexing.addFile settings reader disk dump path =
      (indexing.marked path).behind (({} : Indexing).addSource settings reader dump source) := by
  have ended : ((indexing.marked path).addSource settings reader dump source).failure = none := by
    rw [marked_addSource unfailed]
    exact sound
  rw [← marked_addSource unfailed]
  unfold opened at found
  unfold marked at ended ⊢
  unfold addFile
  simp only [found, ended]

theorem addFile_of_failed {indexing : Indexing} {path source : String} {failure : Failure}
    (unfailed : indexing.failure = none) (found : opened disk path = .ok source)
    (failed : (({} : Indexing).addSource settings reader dump source).failure = some failure) :
    indexing.addFile settings reader disk dump path =
      { (indexing.marked path).behind (({} : Indexing).addSource settings reader dump source) with
        count := indexing.count
        failure := some (failure.inFile (join disk.base path)) } := by
  have ended :
      ((indexing.marked path).addSource settings reader dump source).failure = some failure := by
    rw [marked_addSource unfailed]
    exact failed
  rw [← marked_addSource unfailed]
  unfold opened at found
  unfold marked at ended ⊢
  unfold addFile
  simp only [found, ended]

theorem addFile_eq_behind {indexing : Indexing} (unfailed : indexing.failure = none)
    (path : String) :
    indexing.addFile settings reader disk dump path =
      indexing.behind (({} : Indexing).addFile settings reader disk dump path) := by
  cases content : opened disk path with
  | error fault => simp [addFile_of_refused content, behind, print, unfailed]
  | ok source =>
      cases ended : (({} : Indexing).addSource settings reader dump source).failure with
      | none =>
          rw [addFile_of_sound unfailed content ended, addFile_of_sound rfl content ended,
            marked_eq_behind unfailed, behind_assoc]
      | some failure =>
          rw [addFile_of_failed unfailed content ended, addFile_of_failed rfl content ended,
            marked_eq_behind unfailed, behind_assoc]
          simp [behind]

theorem settle_behind (first second : Indexing) :
    (first.behind second).settle = first.behind second.settle := by
  unfold settle
  simp only [behind]
  split
  next sound => simp [sound]
  next failure failed =>
    split
    · split
      · simp [fail]
      · simp [print, String.append_assoc]
    · simp [failed]

/-- Indexing behind something is indexing from the start with that something put in front. -/
theorem addFiles_eq_behind {indexing : Indexing} (unfailed : indexing.failure = none)
    (paths : List String) :
    indexing.addFiles settings reader disk dump paths =
      indexing.behind (({} : Indexing).addFiles settings reader disk dump paths) := by
  induction paths generalizing indexing with
  | nil => exact (behind_empty unfailed).symm
  | cons path rest ih =>
      have first : (indexing.addFile settings reader disk dump path).settle =
          indexing.behind (({} : Indexing).addFile settings reader disk dump path).settle := by
        rw [addFile_eq_behind unfailed, settle_behind]
      simp only [addFiles, first]
      split
      next failed => rw [if_pos (by simpa [behind] using failed)]
      next sound =>
        have soundFirst :
            (({} : Indexing).addFile settings reader disk dump path).settle.failure = none := by
          simpa [behind] using sound
        rw [if_neg (by simpa [behind] using sound), ih soundFirst, ← behind_assoc]
        exact ih (by simpa [behind] using soundFirst)

theorem addFiles_append {indexing : Indexing} (unfailed : indexing.failure = none)
    {first second : List String}
    (finished : (indexing.addFiles settings reader disk dump (first ++ second)).failure = none) :
    (indexing.addFiles settings reader disk dump first).failure = none ∧
      indexing.addFiles settings reader disk dump (first ++ second) =
        (indexing.addFiles settings reader disk dump first).addFiles settings reader disk dump
          second := by
  induction first generalizing indexing with
  | nil => exact ⟨unfailed, rfl⟩
  | cons path rest ih =>
      simp only [List.cons_append, addFiles] at finished ⊢
      split at finished
      next failed => simp [finished] at failed
      next sound =>
        have next := ih (by simpa using sound) finished
        rw [if_neg sound, if_neg sound]
        exact next

/-! ## What a single file comes to -/

/-- A settled failure was that of a condemned source. -/
theorem condemnsSource_of_settle {indexing : Indexing} {failure : Failure}
    (failed : indexing.failure = some failure) (settled : indexing.settle.failure = none) :
    failure.fault.condemnsSource = true := by
  cases condemned : failure.fault.condemnsSource with
  | true => rfl
  | false => simp [settle, failed, condemned] at settled

/-- Settling changes neither the blocks nor the names. -/
theorem settle_kept (indexing : Indexing) :
    indexing.settle.blocks = indexing.blocks ∧ indexing.settle.files = indexing.files := by
  unfold settle
  split
  · exact ⟨rfl, rfl⟩
  · split
    · split
      · exact ⟨rfl, rfl⟩
      · exact ⟨rfl, rfl⟩
    · exact ⟨rfl, rfl⟩

theorem condemnsSource_inFile (failure : Failure) (file : String) :
    (failure.inFile file).fault.condemnsSource = failure.fault.condemnsSource := by
  unfold Failure.inFile
  split
  next condemned =>
    split
    next sentence former line known =>
      rw [known]
      rfl
    · rfl
  · rfl

variable (settings reader dump) in
/-- What indexing a source from the start can come to: its blocks, each counted, or a failure and no
blocks.  If the failure is held against the source, the source has none to contribute. -/
theorem addSource_outcome (source : String) :
    let indexed := ({} : Indexing).addSource settings reader dump source
    indexed.files = [] ∧
      (indexed.failure = none ∧ indexed.blocks = sourceBlocks settings reader source ∧
          indexed.count = indexed.blocks.length ∨
        ∃ failure, indexed.failure = some failure ∧ indexed.blocks = [] ∧
          (failure.fault.condemnsSource = true → sourceBlocks settings reader source = [])) := by
  cases empty : source.isEmpty with
  | true => simp [addSource, sourceBlocks, finalState?, empty]
  | false =>
      cases parsed : reader (prepare source) with
      | error fault => simp [addSource, sourceBlocks, finalState?, empty, parsed, hand, fail]
      | ok tree =>
          cases shown : if dump then Dump.ofLists settings.grammar tree.toLists else .ok "" with
          | error fault =>
              have mild : fault.condemnsSource = false := by
                split at shown
                · exact Dump.ofLists_condemns_nothing shown
                · cases shown
              simp [addSource, empty, parsed, shown, hand, fail, mild]
          | ok text =>
              cases ended : (Walk.ofTree settings (toNodes tree)).fault with
              | none =>
                  simp [addSource, sourceBlocks, finalState?, empty, parsed, shown, ended, hand, print]
              | some fault =>
                  simp [addSource, sourceBlocks, finalState?, empty, parsed, shown, ended, hand, print,
                    fail]

/-- A file whose failure, if any, gets settled contributes its blocks and its name. -/
theorem settled_addFile {path : String}
    (settled : (({} : Indexing).addFile settings reader disk dump path).settle.failure = none) :
    (({} : Indexing).addFile settings reader disk dump path).settle.blocks =
        fileBlocks settings reader path (opened disk path) ∧
      (({} : Indexing).addFile settings reader disk dump path).settle.files =
        fileNames path (opened disk path) := by
  rcases settle_kept (({} : Indexing).addFile settings reader disk dump path) with ⟨blocks, files⟩
  rw [blocks, files]
  cases content : opened disk path with
  | error fault => simp [addFile_of_refused content, print, fileBlocks, fileNames]
  | ok source =>
      rcases addSource_outcome settings reader dump source with ⟨noFiles, outcome⟩
      rcases outcome with ⟨sound, contributed, _⟩ | ⟨failure, failed, noBlocks, condemned⟩
      · have equation : ({} : Indexing).addFile settings reader disk dump path = _ :=
          addFile_of_sound rfl content sound
        simp [equation, behind, marked, fileBlocks, fileNames, noFiles, contributed]
      · have equation : ({} : Indexing).addFile settings reader disk dump path = _ :=
          addFile_of_failed rfl content failed
        have severe : failure.fault.condemnsSource = true := by
          rw [equation] at settled
          have settledFault := condemnsSource_of_settle rfl settled
          rwa [condemnsSource_inFile] at settledFault
        simp [equation, behind, marked, fileBlocks, fileNames, noFiles, noBlocks, condemned severe]

/-- A run that is not cut short is the concatenation of what the single files contribute. -/
theorem addFiles_contributions {paths : List String}
    (finished : (({} : Indexing).addFiles settings reader disk dump paths).failure = none) :
    (({} : Indexing).addFiles settings reader disk dump paths).blocks =
        paths.flatMap (fun path => fileBlocks settings reader path (opened disk path)) ∧
      (({} : Indexing).addFiles settings reader disk dump paths).files =
        paths.flatMap (fun path => fileNames path (opened disk path)) := by
  induction paths with
  | nil => exact ⟨rfl, rfl⟩
  | cons path rest ih =>
      simp only [addFiles] at finished ⊢
      split at finished
      next failed => simp [finished] at failed
      next sound =>
        have settled :
            (({} : Indexing).addFile settings reader disk dump path).settle.failure = none := by
          simpa using sound
        rw [if_neg sound]
        rw [addFiles_eq_behind settled] at finished ⊢
        simp only [behind] at finished
        rcases settled_addFile settled with ⟨blocks, files⟩
        rcases ih finished with ⟨laterBlocks, laterFiles⟩
        simp only [behind, List.flatMap_cons, blocks, files, laterBlocks, laterFiles, and_self]

/-! ## Counting the blocks -/

/-- One indexing goes on from another by appending blocks and counting each of them. -/
def Counts (before after : Indexing) : Prop :=
  ∃ appended, after.blocks = before.blocks ++ appended ∧ after.count = before.count + appended.length

theorem unfailed_of_addSource {indexing : Indexing} {source : String}
    (sound : (indexing.addSource settings reader dump source).failure = none) :
    indexing.failure = none := by
  revert sound
  unfold addSource
  split
  · exact id
  · simp only
    split
    · intro sound
      cases sound
    · split
      · intro sound
        cases sound
      · split
        · intro sound
          cases sound
        · exact id

theorem addSource_counts {indexing : Indexing} {source : String}
    (sound : (indexing.addSource settings reader dump source).failure = none) :
    indexing.Counts (indexing.addSource settings reader dump source) := by
  have apart : indexing.addSource settings reader dump source = _ :=
    addSource_eq_behind (unfailed_of_addSource sound) source
  rw [apart] at sound ⊢
  rcases addSource_outcome settings reader dump source with ⟨_, ⟨_, _, counted⟩ | ⟨failure, failed, _⟩⟩
  · exact ⟨_, rfl, by simp [behind, counted]⟩
  · rw [show (indexing.behind _).failure = _ from failed] at sound
    cases sound

theorem addFile_counts {indexing : Indexing} {path : String}
    (sound : (indexing.addFile settings reader disk dump path).failure = none) :
    indexing.Counts (indexing.addFile settings reader disk dump path) := by
  cases content : opened disk path with
  | error fault => exact ⟨[], by simp [addFile_of_refused content, print]⟩
  | ok source =>
      have found : disk.read (join disk.base path) = .ok source := content
      cases ended : ((indexing.marked path).addSource settings reader dump source).failure with
      | some failure =>
          unfold marked at ended
          unfold addFile at sound
          simp [found, ended] at sound
      | none =>
          have equation : indexing.addFile settings reader disk dump path =
              (indexing.marked path).addSource settings reader dump source := by
            unfold marked at ended ⊢
            unfold addFile
            simp only [found, ended]
          rw [equation]
          rcases addSource_counts ended with ⟨appended, blocks, counted⟩
          refine ⟨fileMark path :: appended, ?_, ?_⟩
          · rw [blocks]
            simp [marked]
          · rw [counted, List.length_cons]
            simp only [marked]
            omega

/-! ## Names and marks -/

/-- The name in a block that is the mark of a file. -/
def markedName? (block : String) : Option String :=
  match block.toList with
  | '\n' :: '\t' :: '@' :: rest => some (String.ofList (rest.take (rest.length - 2)))
  | _ => none

theorem markedName?_fileMark (path : String) : markedName? (fileMark path) = some path := by
  have letters : (fileMark path).toList = '\n' :: '\t' :: '@' :: (path.toList ++ ['\n', '\n']) := by
    simp [fileMark, Mark.render, Mark.sign]
  simp [markedName?, letters]

theorem exists_intercalate_cons (separator first : String) (rest : List String) :
    ∃ tail, String.intercalate separator (first :: rest) = first ++ tail := by
  cases rest with
  | nil => exact ⟨"", by simp⟩
  | cons second later => exact ⟨_, by rw [String.intercalate_cons_cons, String.append_assoc]⟩

theorem markedName?_number (number : Nat) (rest : String) :
    markedName? (toString number ++ rest) = none := by
  rcases Line.exists_digit number with ⟨digit, digits, letters, isDigit⟩
  have notFeed : digit ≠ '\n' := by
    rintro rfl
    cases isDigit
  simp only [markedName?, String.toList_append, letters, List.cons_append]
  split
  next front => exact absurd (List.cons.inj front).1 notFeed
  · rfl

theorem exists_rows_cons (number : Nat) (item : Item) (following : List Item) :
    ∃ first later, Line.rows number (item :: following) = (toString number ++ first) :: later := by
  cases item with
  | symbol mark name => exact ⟨_, _, rfl⟩
  | plain text =>
      rcases Line.exists_rows_plain number text following with ⟨space, _, rows⟩
      exact ⟨_, _, rows⟩

theorem markedName?_render (line : Line) : markedName? line.render = none := by
  unfold Line.render
  split
  · cases content : line.items with
    | nil =>
        rw [Line.rows]
        decide
    | cons item following =>
        rcases exists_rows_cons line.number item following with ⟨first, later, rows⟩
        rcases exists_intercalate_cons "\n" (toString line.number ++ first) later with ⟨tail, joined⟩
        rw [rows, joined]
        simp only [String.append_assoc]
        apply markedName?_number
  · decide

theorem filterMap_sourceBlocks (settings : Settings) (reader : Reader) (source : String) :
    (sourceBlocks settings reader source).filterMap markedName? = [] := by
  apply List.filterMap_eq_nil_iff.mpr
  intro block member
  unfold sourceBlocks at member
  cases ended : finalState? settings reader source with
  | none => simp [ended] at member
  | some state =>
      simp only [ended, Option.map_some, Option.getD_some, State.rendered, List.mem_map] at member
      rcases member with ⟨_ | line, _, rfl⟩
      · decide
      · exact markedName?_render line

theorem filterMap_fileBlocks (path : String) (content : Except Fault String) :
    (fileBlocks settings reader path content).filterMap markedName? = fileNames path content := by
  cases content with
  | error fault => rfl
  | ok source =>
      simp [fileBlocks, fileNames, markedName?_fileMark, filterMap_sourceBlocks settings reader source]

/-! ## Runs -/

/-- What a run over some files works with. -/
structure Job where
  settings : Settings
  reader : Reader
  disk : Disk
  dump : Bool
  paths : List String

namespace Job

/-- What a run comes to. -/
def indexing (job : Job) : Indexing :=
  ({} : Indexing).addFiles job.settings job.reader job.disk job.dump job.paths

/-- The same run over other files. -/
def onFiles (job : Job) (paths : List String) : Job :=
  { job with paths := paths }

/-- Where the list of files divides, so does the run. -/
theorem indexing_append (job : Job) {first second : List String}
    (finished : (job.onFiles (first ++ second)).indexing.failure = none) :
    (job.onFiles first).indexing.failure = none ∧
      (job.onFiles (first ++ second)).indexing =
        (job.onFiles first).indexing.behind (job.onFiles second).indexing := by
  unfold indexing onFiles at finished ⊢
  simp only at finished ⊢
  rcases addFiles_append rfl finished with ⟨sound, divided⟩
  refine ⟨sound, ?_⟩
  rw [divided]
  exact addFiles_eq_behind sound second

theorem filterMap_indexing {job : Job} (finished : job.indexing.failure = none) :
    job.indexing.blocks.filterMap markedName? = job.indexing.files := by
  rcases addFiles_contributions finished with ⟨blocks, files⟩
  unfold indexing
  rw [blocks, files, List.filterMap_flatMap]
  simp only [filterMap_fileBlocks]

/-- Files are indexed independently: a run that is not cut short is the concatenation of what its
files contribute, so it divides wherever the list of files is divided; its names are those in its
file marks, in order; and whatever goes through without a failure counts the blocks that it
appends. -/
theorem files_independent (job : Job) (finished : job.indexing.failure = none) :
    (job.indexing.blocks =
        job.paths.flatMap (fun path => fileBlocks job.settings job.reader path (opened job.disk path)) ∧
      job.indexing.files = job.paths.flatMap (fun path => fileNames path (opened job.disk path))) ∧
    (∀ first second, job.paths = first ++ second →
      (job.onFiles first).indexing.failure = none ∧ (job.onFiles second).indexing.failure = none ∧
        job.indexing.blocks =
          (job.onFiles first).indexing.blocks ++ (job.onFiles second).indexing.blocks ∧
        job.indexing.files =
          (job.onFiles first).indexing.files ++ (job.onFiles second).indexing.files) ∧
    job.indexing.blocks.filterMap markedName? = job.indexing.files ∧
    (∀ start path, (addFile job.settings job.reader job.disk job.dump start path).failure = none →
      start.Counts (start.addFile job.settings job.reader job.disk job.dump path)) ∧
    ∀ start source, (addSource job.settings job.reader job.dump start source).failure = none →
      start.Counts (start.addSource job.settings job.reader job.dump source) := by
  refine ⟨addFiles_contributions finished, ?_, filterMap_indexing finished,
    fun _ _ => addFile_counts, fun _ _ => addSource_counts⟩
  intro first second divided
  have same : job = job.onFiles (first ++ second) := by
    rw [← divided]
    rfl
  rw [same] at finished
  rcases job.indexing_append finished with ⟨sound, whole⟩
  rw [whole] at finished
  refine ⟨sound, finished, ?_, ?_⟩
  · rw [same, whole]
    rfl
  · rw [same, whole]
    rfl

/-- A run over a file that does not exist, one whose tree breaks off in its second line, a sound one
and an empty one. -/
def mixed : Job where
  settings := {}
  reader := .ofTable
    [("x\n", .ok (.node [.int 257, .node [.int 1, .text "x", .int 1],
        .node [.int 0, .text "", .int 2]])),
      ("y\n", .ok (.node [.int 257, .node [.int 1, .text "y", .int 1],
        .node [.int 1, .text "z", .int 2],
        .node [.int 329, .node [.int 1, .text "struct", .int 2]]]))]
  disk := .ofEntries "/d" [.file "a.py" "x", .file "b.py" "y", .file "c.py" ""]
  dump := false
  paths := ["gone.py", "b.py", "a.py", "c.py"]

theorem files_independent_mixed :
    mixed.indexing.failure = none ∧
      mixed.indexing.blocks =
        ["\n\t@b.py\n\n", "\n\t@a.py\n\n", "1 \nx\n\n", "\n\t@c.py\n\n"] ∧
      mixed.indexing.files = ["b.py", "a.py", "c.py"] := by
  have finished : mixed.indexing.failure = none := by decide +kernel
  have contributions := (files_independent mixed finished).1
  refine ⟨finished, contributions.1.trans ?_, contributions.2.trans ?_⟩
  · decide +kernel
  · decide +kernel

end Job

end Indexing

end CrossRef
