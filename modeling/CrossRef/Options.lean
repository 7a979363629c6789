/-!
# Options

A command line starts with options, each a dash and a letter.  Letters can stand together behind one
dash, and a letter that takes a value takes the rest of its argument or, if there is none, the whole of
the next one.  Options end at the first argument that is none, or behind two dashes.
-/

namespace CrossRef

/-- An option of the command line. -/
inductive Choice where
  /-- Dump the tree of every source. -/
  | dump
  /-- Look into directories inside directories. -/
  | recurse
  /-- Take strings that hold identifiers for symbols. -/
  | stringSymbols
  /-- Print the version. -/
  | version
  /-- Write the index to the given file. -/
  | output (path : String)
  /-- Index what the given file lists. -/
  | sources (path : String)
  deriving DecidableEq, Repr

namespace Choice

/-- The option with the given letter, if it takes no value. -/
def plain? : Char → Option Choice
  | 'D' => some .dump
  | 'R' => some .recurse
  | 'S' => some .stringSymbols
  | 'V' => some .version
  | _ => none

/-- The option with the given letter, if it takes a value. -/
def valued? : Char → Option (String → Choice)
  | 'f' => some .output
  | 'i' => some .sources
  | _ => none

end Choice

namespace Options

/-- The options in the letters behind a dash and the arguments left; the last letter may use up the next
argument. -/
def ofLetters (arguments : List String) : List Char → Option (List Choice × List String)
  | [] => some ([], arguments)
  | letter :: rest =>
    match Choice.plain? letter, Choice.valued? letter with
    | some choice, _ => (ofLetters arguments rest).map fun (choices, left) => (choice :: choices, left)
    | none, some choice =>
      if rest.isEmpty then
        match arguments with
        | [] => none
        | value :: left => some ([choice value], left)
      else some ([choice (String.ofList rest)], arguments)
    | none, none => none

theorem length_ofLetters_le {arguments : List String} {letters : List Char}
    {choices : List Choice} {left : List String}
    (read : ofLetters arguments letters = some (choices, left)) : left.length ≤ arguments.length := by
  induction letters generalizing choices left with
  | nil =>
    simp only [ofLetters, Option.some.injEq, Prod.mk.injEq] at read
    simp [read.2]
  | cons letter rest ih =>
    unfold ofLetters at read
    split at read
    · obtain ⟨⟨inner, remaining⟩, found, same⟩ := Option.map_eq_some_iff.mp read
      simp only [Prod.mk.injEq] at same
      exact same.2 ▸ ih found
    · split at read
      · split at read
        · simp at read
        · simp only [Option.some.injEq, Prod.mk.injEq] at read
          simp [← read.2]
      · simp only [Option.some.injEq, Prod.mk.injEq] at read
        simp [read.2]
    · simp at read

/-- The options of a command line and the arguments behind them; none if an option is unknown or lacks
its value. -/
def parse (arguments : List String) : Option (List Choice × List String) :=
  match arguments with
  | [] => some ([], [])
  | argument :: rest =>
    match argument.toList with
    | ['-', '-'] => some ([], rest)
    | '-' :: '-' :: _ => none
    | '-' :: letter :: letters =>
      match _read : ofLetters rest (letter :: letters) with
      | none => none
      | some (choices, left) => (parse left).map fun (more, last) => (choices ++ more, last)
    | _ => some ([], argument :: rest)
termination_by arguments.length
decreasing_by
  have bound := length_ofLetters_le _read
  simp only [List.length_cons]
  omega

end Options

end CrossRef
