import CrossRef.Proofs.LineForm
import CrossRef.Proofs.Passage
import CrossRef.Proofs.Terminals
import CrossRef.Proofs.Writing
import Mathlib.Data.List.Basic

/-!
# Strings as symbols

A walk that takes strings for symbols and one that does not go through a tree side by side.  They note
the same things, they are on lines with the same number, and they fail at the same node if they fail.
A string writes plain text at its beginning and at its end in both walks, so the lines at hand end
alike after every visit, and whatever is added next is merged, refused or put behind in the same way.
The lines of the one walk are therefore those of the other with symbols without a mark put in, and
these are the symbols that appear on a line when a string is visited.
-/

namespace CrossRef

/-- A place on the page: which block, and which of its items. -/
abbrev Spot := Nat × Nat

/-- A symbol with the number of the line that it stands on. -/
abbrev Mention := Nat × Option Mark × String

namespace Item

/-- What an item at a spot of a line with the given number mentions, unless the spot is left out. -/
def mention (number : Nat) (left : Bool) : Item → List Mention
  | .symbol mark name => if left then [] else [(number, mark, name)]
  | .plain _ => []

/-- What some items mention, but for those at the given spots; the first of them is at `index`. -/
def mentionsFrom (number : Nat) (spots : List Spot) (block : Nat) : Nat → List Item → List Mention
  | _, [] => []
  | index, item :: rest =>
    item.mention number (spots.contains (block, index)) ++
      mentionsFrom number spots block (index + 1) rest

/-- Two ends of lines that go on in the same way: both lines are empty, both end in plain text, or both
end in the same symbol. -/
inductive SameEnd : Option Item → Option Item → Prop where
  | empty : SameEnd none none
  | plain (first second : String) : SameEnd (some (.plain first)) (some (.plain second))
  | symbol (mark : Option Mark) (name : String) :
      SameEnd (some (.symbol mark name)) (some (.symbol mark name))

/-- Plain text comes last on both sides or on neither. -/
theorem SameEnd.plain_iff {first second : Option Item} (ends : SameEnd first second) :
    (∃ text, first = some (.plain text)) ↔ ∃ text, second = some (.plain text) := by
  cases ends <;> simp

variable {number block index : Nat} {spots : List Spot}

theorem mentionsFrom_append (first second : List Item) :
    mentionsFrom number spots block index (first ++ second) =
      mentionsFrom number spots block index first ++
        mentionsFrom number spots block (index + first.length) second := by
  induction first generalizing index with
  | nil => rfl
  | cons item rest ih =>
      simp only [List.cons_append, mentionsFrom, ih, List.length_cons, List.append_assoc]
      rw [Nat.add_assoc, Nat.add_comm 1]

/-- Only the spots of the items themselves matter. -/
theorem mentionsFrom_congr {others : List Spot} {items : List Item}
    (same : ∀ place, index ≤ place → place < index + items.length →
      ((block, place) ∈ others ↔ (block, place) ∈ spots)) :
    mentionsFrom number others block index items = mentionsFrom number spots block index items := by
  induction items generalizing index with
  | nil => rfl
  | cons item rest ih =>
      have here : others.contains (block, index) = spots.contains (block, index) := by
        rw [Bool.eq_iff_iff, List.contains_iff_mem, List.contains_iff_mem]
        exact same index (Nat.le_refl index) (by simp)
      have behind : mentionsFrom number others block (index + 1) rest =
          mentionsFrom number spots block (index + 1) rest := by
        apply ih
        intro place isLater isInside
        exact same place (by omega) (by rw [List.length_cons]; omega)
      simp only [mentionsFrom, here, behind]

end Item

namespace Line

/-- What a line mentions, but for the given spots; `block` is its place among the blocks. -/
def mentions (spots : List Spot) (block : Nat) (line : Line) : List Mention :=
  Item.mentionsFrom line.number spots block 0 line.items

/-- A line is another one with symbols without a mark put in at the given spots.  These never come last,
so that the two lines end alike. -/
structure Enriches (spots : List Spot) (block : Nat) (plain rich : Line) : Prop where
  number : rich.number = plain.number
  mentions : rich.mentions spots block = plain.mentions [] 0
  ends : Item.SameEnd plain.items.getLast? rich.items.getLast?
  plainHonest : plain.Honest
  richHonest : rich.Honest
  inside : ∀ index, (block, index) ∈ spots →
    index + 1 < rich.items.length ∧ ∃ name, rich.items[index]? = some (.symbol none name)

variable {spots : List Spot} {block : Nat} {plain rich : Line}

theorem mentions_nil (line : Line) (block other : Nat) :
    line.mentions [] block = line.mentions [] other := by
  have anywhere (index : Nat) (items : List Item) :
      Item.mentionsFrom line.number [] block index items =
        Item.mentionsFrom line.number [] other index items := by
    induction items generalizing index with
    | nil => rfl
    | cons item rest ih => simp only [Item.mentionsFrom, List.contains_nil, ih]
  exact anywhere 0 line.items

/-- The spot behind the last item is free. -/
theorem Enriches.free (enriches : Enriches spots block plain rich) {index : Nat}
    (behind : rich.items.length ≤ index + 1) : (block, index) ∉ spots := by
  intro member
  have inside := (enriches.inside index member).1
  omega

theorem mentions_of_not_hasSymbol {line : Line} (honest : line.Honest) (none : line.hasSymbol = false)
    (spots : List Spot) (block : Nat) : line.mentions spots block = [] := by
  have plainly : ∀ item ∈ line.items, item.isSymbol = false := by
    rw [honest] at none
    simpa using none
  have silent (index : Nat) (items : List Item) (each : ∀ item ∈ items, item.isSymbol = false) :
      Item.mentionsFrom line.number spots block index items = [] := by
    induction items generalizing index with
    | nil => rfl
    | cons item rest ih =>
        have isPlain := each item List.mem_cons_self
        rw [Item.mentionsFrom, ih _ fun other member => each other (List.mem_cons_of_mem item member)]
        cases item with
        | symbol mark name => cases isPlain
        | plain text => rfl
  exact silent 0 line.items plainly

/-- The last item of a line mentions its symbol if its spot is free. -/
theorem mentions_concat {line : Line} {front : List Item} {last : Item}
    (split : line.items = front ++ [last]) (free : (block, front.length) ∉ spots) :
    line.mentions spots block =
      Item.mentionsFrom line.number spots block 0 front ++ last.mention line.number false := by
  simp [mentions, split, Item.mentionsFrom_append, Item.mentionsFrom, free]

theorem honest_push {line : Line} (honest : line.Honest) (item : Item) : (line.push item).Honest := by
  unfold Honest at honest ⊢
  simp [honest]

/-- A line that has just been started enriches itself. -/
theorem enriches_start {next : Element} {line : Line} (started : start next = .ok line)
    (past : ∀ spot ∈ spots, spot.1 ≠ block) : Enriches spots block line line := by
  have empty : line.items = [] ∧ line.hasSymbol = false := by
    cases next with
    | int number =>
        simp only [start] at started
        split at started
        · cases started
          exact ⟨rfl, rfl⟩
        · cases started
    | _ => cases started
  have honest : line.Honest := by
    unfold Honest
    simp [empty]
  refine ⟨rfl, ?_, ?_, honest, honest, ?_⟩
  · simp [Line.mentions, empty, Item.mentionsFrom]
  · simpa [empty] using .empty
  · intro index member
    exact absurd rfl (past _ member)

/-- The same item can be put behind both lines, and so can any two pieces of plain text. -/
theorem Enriches.push (enriches : Enriches spots block plain rich) {first second : Item}
    (alike : Item.SameEnd (some first) (some second)) :
    Enriches spots block (plain.push first) (rich.push second) where
  number := enriches.number
  mentions := by
    have same : second.mention rich.number false = first.mention plain.number false := by
      cases alike <;> simp [Item.mention, enriches.number]
    rw [mentions_concat rfl (enriches.free (Nat.le_succ _)), mentions_concat rfl (by simp)]
    exact congrArg₂ (· ++ ·) enriches.mentions same
  ends := by simpa using alike
  plainHonest := honest_push enriches.plainHonest first
  richHonest := honest_push enriches.richHonest second
  inside := by
    intro index member
    rcases enriches.inside index member with ⟨inside, name, found⟩
    refine ⟨?_, name, ?_⟩
    · simp only [Line.push, List.length_append, List.length_singleton]
      omega
    · rw [Line.push, List.getElem?_append_left (by omega)]
      exact found

/-- The last items of both lines can be replaced alike by items of the same sort. -/
theorem Enriches.replaceLast (enriches : Enriches spots block plain rich)
    {plainLast richLast first second : Item} (isPlainLast : plain.items.getLast? = some plainLast)
    (isRichLast : rich.items.getLast? = some richLast) (plainSort : first.isSymbol = plainLast.isSymbol)
    (richSort : second.isSymbol = richLast.isSymbol)
    (alike : Item.SameEnd (some first) (some second)) :
    Enriches spots block (plain.replaceLast first) (rich.replaceLast second) := by
  have ended := enriches.ends
  rw [isPlainLast, isRichLast] at ended
  have free : (block, rich.items.dropLast.length) ∉ spots :=
    enriches.free (by rw [List.length_dropLast]; omega)
  rcases List.getLast?_eq_some_iff.mp isPlainLast with ⟨plainFront, plainSplit⟩
  rcases List.getLast?_eq_some_iff.mp isRichLast with ⟨richFront, richSplit⟩
  rw [richSplit, List.dropLast_concat] at free
  have nothing : ((0, plainFront.length) : Spot) ∉ ([] : List Spot) := List.not_mem_nil
  have lastAlike : richLast.mention rich.number false = plainLast.mention plain.number false := by
    cases ended <;> simp [Item.mention, enriches.number]
  have newAlike : second.mention rich.number false = first.mention plain.number false := by
    cases alike <;> simp [Item.mention, enriches.number]
  have fronts : Item.mentionsFrom rich.number spots block 0 richFront =
      Item.mentionsFrom plain.number [] 0 0 plainFront := by
    have mentioned := enriches.mentions
    rw [mentions_concat richSplit free, mentions_concat plainSplit nothing, lastAlike] at mentioned
    exact List.append_cancel_right mentioned
  have plainItems : (plain.replaceLast first).items = plainFront ++ [first] := by
    simp [plainSplit]
  have richItems : (rich.replaceLast second).items = richFront ++ [second] := by
    simp [richSplit]
  refine ⟨enriches.number, ?_, ?_, ?_, ?_, ?_⟩
  · rw [mentions_concat richItems free, mentions_concat plainItems nothing]
    exact congrArg₂ (· ++ ·) fronts newAlike
  · simpa using alike
  · have honest := enriches.plainHonest
    unfold Honest at honest ⊢
    simpa [plainSplit, plainSort] using honest
  · have honest := enriches.richHonest
    unfold Honest at honest ⊢
    simpa [richSplit, richSort] using honest
  · intro index member
    rcases enriches.inside index member with ⟨inside, name, found⟩
    rw [richSplit, List.length_append, List.length_singleton] at inside
    refine ⟨?_, name, ?_⟩
    · simpa [richSplit] using inside
    · rw [richSplit, List.getElem?_append_left (by omega)] at found
      rw [Line.replaceLast, richSplit, List.dropLast_concat, List.getElem?_append_left (by omega)]
      exact found

/-- Plain text is put behind the last item or joined to it; no symbol appears. -/
theorem add_plain_cases (line : Line) (text : String) :
    (line.add (.plain text) = .ok (line.push (.plain text)) ∧
        ∀ before, line.items.getLast? ≠ some (.plain before)) ∨
      ∃ before, line.items.getLast? = some (.plain before) ∧
        line.add (.plain text) = .ok (line.replaceLast (.plain (before ++ " " ++ text))) := by
  cases isLast : line.items.getLast? with
  | none => exact Or.inl ⟨by simp [add, isLast], by simp⟩
  | some last =>
      cases last with
      | symbol mark name => exact Or.inl ⟨by simp [add, isLast, Item.isFunctionEnd], by simp⟩
      | plain before => exact Or.inr ⟨before, rfl, by simp [add, isLast, Item.isFunctionEnd, Item.merge]⟩

/-- Any two pieces of plain text can be added to the two lines. -/
theorem Enriches.addPlain (enriches : Enriches spots block plain rich) (first second : String) :
    ∃ longer richer, plain.add (.plain first) = .ok longer ∧ rich.add (.plain second) = .ok richer ∧
      Enriches spots block longer richer := by
  -- The two lines end alike, so that both texts are put behind the last item or both are joined to it.
  rcases plain.add_plain_cases first with ⟨pushed, notPlain⟩ | ⟨before, isLast, joined⟩
  · rcases rich.add_plain_cases second with ⟨richPushed, _⟩ | ⟨other, isOther, _⟩
    · exact ⟨_, _, pushed, richPushed, enriches.push (.plain first second)⟩
    · rcases enriches.ends.plain_iff.mpr ⟨other, isOther⟩ with ⟨before, isLast⟩
      exact absurd isLast (notPlain before)
  · rcases rich.add_plain_cases second with ⟨_, notPlain⟩ | ⟨other, isOther, richJoined⟩
    · rcases enriches.ends.plain_iff.mp ⟨before, isLast⟩ with ⟨other, isOther⟩
      exact absurd isOther (notPlain other)
    · exact ⟨_, _, joined, richJoined,
        enriches.replaceLast isLast isOther rfl rfl (.plain _ _)⟩

/-- An item can be added to both lines or to neither, for the same reason. -/
theorem Enriches.add (enriches : Enriches spots block plain rich) (item : Item) :
    (∃ fault, plain.add item = .error fault ∧ rich.add item = .error fault) ∨
      ∃ longer richer, plain.add item = .ok longer ∧ rich.add item = .ok richer ∧
        Enriches spots block longer richer := by
  cases item with
  | plain text => exact Or.inr (enriches.addPlain text text)
  | symbol mark name =>
      have ended := enriches.ends
      generalize isPlainLast : plain.items.getLast? = plainLast at ended
      generalize isRichLast : rich.items.getLast? = richLast at ended
      cases ended with
      | empty =>
          right
          refine ⟨_, _, ?_, ?_, enriches.push (.symbol mark name)⟩
          · simp [Line.add, isPlainLast]
          · simp [Line.add, isRichLast]
      | plain first second =>
          right
          refine ⟨_, _, ?_, ?_, enriches.push (.symbol mark name)⟩
          · simp [Line.add, isPlainLast]
          · simp [Line.add, isRichLast]
      | symbol held before =>
          by_cases isEnd : (Item.symbol mark name).isFunctionEnd = true
          · right
            refine ⟨_, _, ?_, ?_, (enriches.push (.plain " " " ")).push (.symbol mark name)⟩
            · simp [Line.add, isPlainLast, isEnd, separator]
            · simp [Line.add, isRichLast, isEnd, separator]
          · by_cases same : held = mark
            · right
              subst same
              have alike := Item.SameEnd.symbol held (before ++ name)
              refine ⟨_, _, ?_, ?_, enriches.replaceLast isPlainLast isRichLast ?_ ?_ alike⟩
              · simp [Line.add, isPlainLast, isEnd, Item.merge]
              · simp [Line.add, isRichLast, isEnd, Item.merge]
              · rfl
              · rfl
            · left
              refine ⟨.marksDiffer, ?_, ?_⟩
              · simp [Line.add, isPlainLast, isEnd, Item.merge, same]
              · simp [Line.add, isRichLast, isEnd, Item.merge, same]

/-- The spots of the symbols that stand behind all items of the shorter of two lines. -/
def newSymbols (block : Nat) (shorter longer : Line) : List Spot :=
  (longer.items.zipIdx.drop shorter.items.length).filterMap fun (item, index) =>
    if item.isSymbol then some (block, index) else none

theorem fst_of_mem_newSymbols {shorter longer : Line} {spot : Spot}
    (member : spot ∈ newSymbols block shorter longer) : spot.1 = block := by
  rcases List.mem_filterMap.mp member with ⟨⟨item, index⟩, _, found⟩
  rcases Option.ite_none_right_eq_some.mp found with ⟨_, isSpot⟩
  cases isSpot
  rfl

theorem newSymbols_self (line : Line) : newSymbols block line line = [] := by
  simp [newSymbols, List.drop_eq_nil_of_le]

theorem newSymbols_eq {shorter longer : Line} {early late : List Item} (more : List Item)
    (split : longer.items = early ++ (late ++ more)) (length : early.length = shorter.items.length)
    (plainly : ∀ item ∈ late, item.isSymbol = false) :
    newSymbols block shorter longer =
      (more.zipIdx (early.length + late.length)).filterMap fun (item, index) =>
        if item.isSymbol then some (block, index) else none := by
  have silent : ((late.zipIdx early.length).filterMap fun (item, index) =>
      if item.isSymbol then some (block, index) else none) = [] := by
    apply List.filterMap_eq_nil_iff.mpr
    rintro ⟨item, index⟩ member
    have isLate : item ∈ late := (List.mem_zipIdx member).2.2 ▸ List.getElem_mem _
    simp [plainly item isLate]
  unfold newSymbols
  rw [split, List.zipIdx_append, List.zipIdx_append, ← length,
    List.drop_left' (by simp), List.filterMap_append, Nat.zero_add, silent, List.nil_append]

/-- Adding plain text leaves plain text at the end of a line and no new symbol. -/
theorem add_plain_split {line longer : Line} {text : String}
    (added : line.add (.plain text) = .ok longer) :
    ∃ early late, longer.items = early ++ late ∧ early.length = line.items.length ∧
      (∀ item ∈ late, item.isSymbol = false) ∧
      ∃ whole, longer.items.getLast? = some (.plain whole) := by
  rcases line.add_plain_cases text with ⟨pushed, _⟩ | ⟨before, isLast, joined⟩
  · cases pushed.symm.trans added
    exact ⟨line.items, [.plain text], rfl, rfl, by simp, text, by simp⟩
  · cases joined.symm.trans added
    rcases List.getLast?_eq_some_iff.mp isLast with ⟨front, split⟩
    refine ⟨front ++ [.plain (before ++ " " ++ text)], [], ?_, ?_, by simp, before ++ " " ++ text, ?_⟩
    · simp [split]
    · simp [split]
    · simp

theorem newSymbols_addPlain {line longer : Line} {text : String}
    (added : line.add (.plain text) = .ok longer) : newSymbols block line longer = [] := by
  rcases add_plain_split added with ⟨early, late, split, length, plainly, _⟩
  rw [newSymbols_eq [] (by simpa using split) length plainly]
  rfl

/-- A symbol between two pieces of plain text enriches a line to which the other adds plain text. -/
theorem Enriches.addQuoted (enriches : Enriches spots block plain rich)
    (text opening name closing : String) :
    ∃ longer first second richer, plain.add (.plain text) = .ok longer ∧
      rich.add (.plain opening) = .ok first ∧ first.add (.symbol none name) = .ok second ∧
      second.add (.plain closing) = .ok richer ∧
      Enriches (spots ++ newSymbols block rich richer) block longer richer := by
  rcases enriches.addPlain text opening with ⟨longer, first, added, opened, between⟩
  rcases add_plain_split opened with ⟨early, late, split, length, plainly, whole, isLast⟩
  have named : first.add (.symbol none name) = .ok (first.push (.symbol none name)) := by
    simp [Line.add, isLast, Item.isFunctionEnd]
  have closed : (first.push (.symbol none name)).add (.plain closing) =
      .ok ((first.push (.symbol none name)).push (.plain closing)) := by
    simp [Line.add, Item.isFunctionEnd]
  refine ⟨longer, first, _, _, added, opened, named, closed, ?_⟩
  have here : newSymbols block rich ((first.push (.symbol none name)).push (.plain closing)) =
      [(block, first.items.length)] := by
    rw [newSymbols_eq [.symbol none name, .plain closing] (by simp [split]) length plainly]
    simp [split]
  have unchanged (place : Nat) (inside : place < first.items.length) :
      (block, place) ∈ spots ++ [(block, first.items.length)] ↔ (block, place) ∈ spots := by
    have elsewhere : place ≠ first.items.length := by omega
    simp [elsewhere]
  rw [here]
  refine ⟨between.number, ?_, ?_, between.plainHonest,
    honest_push (honest_push between.richHonest _) _, ?_⟩
  · have early : Item.mentionsFrom first.number (spots ++ [(block, first.items.length)]) block 0
        first.items = first.mentions spots block := by
      apply Item.mentionsFrom_congr
      intro place _ inside
      exact unchanged place (by simpa using inside)
    rw [← between.mentions, ← early]
    simp [Line.mentions, Item.mentionsFrom_append, Item.mentionsFrom, Item.mention]
  · have ended := between.ends
    rcases ended.plain_iff.mpr ⟨whole, isLast⟩ with ⟨before, isBefore⟩
    simpa [isBefore] using .plain before closing
  · intro index member
    rcases List.mem_append.mp member with old | new
    · rcases between.inside index old with ⟨inside, found, isFound⟩
      refine ⟨by simp; omega, found, ?_⟩
      rw [← isFound]
      simp only [Line.push, List.append_assoc]
      exact List.getElem?_append_left (by omega)
    · have isHere : index = first.items.length := by simpa using new
      subst isHere
      refine ⟨by simp, name, by simp⟩

end Line

namespace State

/-- What the finished lines mention, but for the given spots. -/
def mentions (state : State) (spots : List Spot) : List Mention :=
  state.blocks.zipIdx.flatMap fun (line, block) => (line.map (Line.mentions spots block)).getD []

/-- Whether there is a symbol without a mark at a spot of some blocks. -/
def Shows (blocks : List (Option Line)) (spot : Spot) : Prop :=
  ∃ line name, blocks[spot.1]? = some (some line) ∧ line.items[spot.2]? = some (.symbol none name)

/-- Two states that agree on everything but the page, and on the number of the line at hand. -/
structure Alike (first second : State) : Prop where
  marks : second.marks = first.marks
  awaited : second.awaited = first.awaited
  indentation : second.indentation = first.indentation
  functionLevel : second.functionLevel = first.functionLevel
  importHalves : second.importHalves = first.importHalves
  importing : second.importing = first.importing
  assigning : second.assigning = first.assigning
  number : second.line.map Line.number = first.line.map Line.number

/-- The lines at hand are both missing, or one is the other with the symbols at some spots put in. -/
inductive LinesMatch (spots : List Spot) (block : Nat) : Option Line → Option Line → Prop where
  | closed (past : ∀ spot ∈ spots, spot.1 ≠ block) : LinesMatch spots block none none
  | opened {plain rich : Line} (enriches : Line.Enriches spots block plain rich) :
      LinesMatch spots block (some plain) (some rich)

/-- A state on another page. -/
def onPage (state : State) (blocks : List (Option Line)) (line : Option Line) : State :=
  { state with blocks := blocks, line := line }

/-- What remains of two walks side by side also when they fail: the one has what the other has, with the
symbols at some spots put in. -/
structure Accords (spots : List Spot) (plain rich : State) : Prop where
  alike : Alike plain rich
  mentions : rich.mentions spots = plain.mentions []
  shown : ∀ spot ∈ spots, Shows (rich.blocks ++ [rich.line]) spot

/-- Two states of walks that go on side by side. -/
structure Twins (spots : List Spot) (plain rich : State) : Prop where
  course : rich = plain.onPage rich.blocks rich.line
  mentions : rich.mentions spots = plain.mentions []
  shown : ∀ spot ∈ spots, Shows rich.blocks spot ∨ spot.1 = rich.blocks.length
  lines : LinesMatch spots rich.blocks.length plain.line rich.line

variable {spots : List Spot} {plain rich : State}

theorem LinesMatch.number {block : Nat} {first second : Option Line}
    (lines : LinesMatch spots block first second) :
    second.map Line.number = first.map Line.number := by
  cases lines with
  | closed past => rfl
  | opened enriches => simp [enriches.number]

theorem alike_onPage {blocks : List (Option Line)} {line : Option Line}
    (number : line.map Line.number = plain.line.map Line.number) :
    Alike plain (plain.onPage blocks line) :=
  ⟨rfl, rfl, rfl, rfl, rfl, rfl, rfl, number⟩

theorem Shows.append {blocks : List (Option Line)} {spot : Spot} (shows : Shows blocks spot)
    (more : List (Option Line)) : Shows (blocks ++ more) spot := by
  rcases shows with ⟨line, name, isBlock, isSymbol⟩
  refine ⟨line, name, ?_, isSymbol⟩
  rw [List.getElem?_append_left (List.getElem?_eq_some_iff.mp isBlock).1]
  exact isBlock

theorem Twins.alike (twins : Twins spots plain rich) : Alike plain rich := by
  rw [twins.course]
  exact alike_onPage twins.lines.number

theorem Twins.accords (twins : Twins spots plain rich) : Accords spots plain rich := by
  refine ⟨twins.alike, twins.mentions, ?_⟩
  intro spot member
  rcases twins.shown spot member with shows | current
  · exact shows.append [rich.line]
  · have lines := twins.lines
    generalize plain.line = plainLine at lines
    generalize isLine : rich.line = richLine at lines
    cases lines with
    | closed past => exact absurd current (past spot member)
    | @opened plainLine richLine enriches =>
        have isHere : (rich.blocks.length, spot.2) ∈ spots := by
          rw [← current]
          exact member
        rcases (enriches.inside spot.2 isHere).2 with ⟨name, found⟩
        exact ⟨richLine, name, by simp [current], found⟩

/-- What changes neither page leaves the walks side by side. -/
theorem Twins.of_page (twins : Twins spots plain rich) {after : State}
    (blocks : after.blocks = plain.blocks) (line : after.line = plain.line) :
    Twins spots after (after.onPage rich.blocks rich.line) where
  course := rfl
  mentions := by
    have mentioned := twins.mentions
    unfold State.mentions at mentioned ⊢
    rw [blocks]
    exact mentioned
  shown := twins.shown
  lines := by
    rw [line]
    exact twins.lines

/-- Two attempts that fail together or come off together. -/
structure Together (spots : List Spot) (plain rich : Attempt) : Prop where
  fault : plain.fault.isSome = rich.fault.isSome
  accords : Accords spots plain.state rich.state
  twins : plain.fault = none → Twins spots plain.state rich.state

theorem Twins.together (twins : Twins spots plain rich) {first second : Option Fault}
    (fault : first.isSome = second.isSome) : Together spots ⟨plain, first⟩ ⟨rich, second⟩ :=
  ⟨fault, twins.accords, fun _ => twins⟩

theorem addItem_together (twins : Twins spots plain rich) (item : Item) :
    Together spots (plain.addItem item) (rich.addItem item) := by
  have lines := twins.lines
  generalize isPlain : plain.line = plainLine at lines
  generalize isRich : rich.line = richLine at lines
  cases lines with
  | closed past =>
      simp only [addItem, isPlain, isRich]
      exact twins.together rfl
  | opened enriches =>
      rcases enriches.add item with ⟨fault, failed, alsoFailed⟩ |
        ⟨longer, richer, added, alsoAdded, goesOn⟩
      · simp only [addItem, isPlain, isRich, failed, alsoFailed]
        exact twins.together rfl
      · simp only [addItem, isPlain, isRich, added, alsoAdded]
        apply Twins.together _ rfl
        refine ⟨?_, twins.mentions, twins.shown, .opened goesOn⟩
        rw [twins.course]
        rfl

/-! ## Going to another line -/

/-- The line that is flushed takes all its mentions to the finished lines, also if it is dropped because
it has none. -/
theorem mentions_flush (state : State) (spots : List Spot)
    (honest : ∀ line, state.line = some line → line.Honest) :
    state.flush.mentions spots =
      state.mentions spots ++ (state.line.map (Line.mentions spots state.blocks.length)).getD [] := by
  unfold flush
  split
  next closed => simp [mentions, List.zipIdx_append, closed]
  next line opened =>
    split
    next => simp [mentions, List.zipIdx_append, opened]
    next noSymbol =>
      have silent := Line.mentions_of_not_hasSymbol (honest line opened) (by simpa using noSymbol)
        spots state.blocks.length
      simp [opened, silent]

/-- Both walks can finish their lines; then all the symbols put in are on finished lines. -/
theorem Twins.flush (twins : Twins spots plain rich) :
    rich.flush.mentions spots = plain.flush.mentions [] ∧
      ∀ spot ∈ spots, Shows rich.flush.blocks spot := by
  have lines := twins.lines
  have mentioned := twins.mentions
  generalize isPlain : plain.line = plainLine at lines
  generalize isRich : rich.line = richLine at lines
  cases lines with
  | closed past =>
      constructor
      · rw [mentions_flush rich spots (by simp [isRich]), mentions_flush plain [] (by simp [isPlain]),
          mentioned, isPlain, isRich]
        rfl
      · intro spot member
        have shows := (twins.shown spot member).resolve_right (past spot member)
        simpa [State.flush, isRich] using shows.append [none]
  | @opened plainLine richLine enriches =>
      constructor
      · rw [mentions_flush rich spots (by simpa [isRich] using enriches.richHonest),
          mentions_flush plain [] (by simpa [isPlain] using enriches.plainHonest), mentioned, isPlain,
          isRich, Option.map_some, Option.map_some, enriches.mentions,
          Line.mentions_nil plainLine 0 plain.blocks.length]
      · intro spot member
        rcases twins.shown spot member with shows | current
        · simp only [State.flush, isRich]
          split
          · exact shows.append _
          · exact shows
        · have isHere : (rich.blocks.length, spot.2) ∈ spots := by
            rw [← current]
            exact member
          rcases (enriches.inside spot.2 isHere).2 with ⟨name, found⟩
          have hasSymbol : richLine.hasSymbol = true := by
            rw [enriches.richHonest, List.any_eq_true]
            exact ⟨_, List.mem_of_getElem? found, rfl⟩
          refine ⟨richLine, name, ?_, found⟩
          simp [State.flush, isRich, hasSymbol, current]

/-- Finishing a line adds to the finished lines and leaves all else. -/
theorem exists_flush_eq (state : State) : ∃ blocks, state.flush = state.onPage blocks state.line := by
  unfold flush
  split
  next closed => exact ⟨state.blocks ++ [none], by simp [onPage, closed]⟩
  next line opened =>
    split
    · exact ⟨state.blocks ++ [some line], by simp [onPage, opened]⟩
    · exact ⟨state.blocks, rfl⟩

theorem commit_together (twins : Twins spots plain rich) (next : Element) :
    Together spots (plain.commit next) (rich.commit next) := by
  rcases twins.flush with ⟨mentioned, shown⟩
  rcases exists_flush_eq plain with ⟨plainBlocks, plainFlush⟩
  rcases exists_flush_eq rich with ⟨richBlocks, richFlush⟩
  have past : ∀ spot ∈ spots, spot.1 < rich.flush.blocks.length := by
    intro spot member
    rcases shown spot member with ⟨line, name, isBlock, _⟩
    exact (List.getElem?_eq_some_iff.mp isBlock).1
  have course (line : Option Line) :
      { rich.flush with line := line } = State.onPage { plain.flush with line := line }
        rich.flush.blocks line := by
    rw [plainFlush, richFlush, twins.course]
    rfl
  have shownOr : ∀ spot ∈ spots, Shows rich.flush.blocks spot ∨ spot.1 = rich.flush.blocks.length :=
    fun spot member => Or.inl (shown spot member)
  simp only [commit]
  split
  · split
    next line started =>
      apply Twins.together _ rfl
      have fresh : Line.Enriches spots rich.flush.blocks.length line line := by
        apply Line.enriches_start started
        intro spot member
        exact Nat.ne_of_lt (past spot member)
      exact ⟨course (some line), mentioned, shownOr, .opened fresh⟩
    next fault failed =>
      refine ⟨rfl, ⟨?_, mentioned, fun spot member => (shown spot member).append _⟩, by simp⟩
      have alike := twins.alike
      rw [plainFlush, richFlush]
      exact ⟨alike.marks, alike.awaited, alike.indentation, alike.functionLevel, alike.importHalves,
        alike.importing, alike.assigning, alike.number⟩
  · apply Twins.together _ rfl
    exact ⟨course none, mentioned, shownOr,
      .closed fun spot member => Nat.ne_of_lt (past spot member)⟩

/-! ## Steps and plans -/

theorem take_together (grammar : Grammar) (twins : Twins spots plain rich) (step : Step) :
    Together spots (plain.take grammar step) (rich.take grammar step) := by
  obtain ⟨blocks, line, rfl⟩ : ∃ blocks line, rich = plain.onPage blocks line :=
    ⟨_, _, twins.course⟩
  cases step with
  | fail fault => exact twins.together rfl
  | demand verdict =>
      rcases verdict with fault | _ | _ <;> exact twins.together rfl
  | mark path terminal noted =>
      have same : (plain.onPage blocks line).labelAt? path = plain.labelAt? path := rfl
      simp only [take, setMark, same]
      split
      · exact twins.together rfl
      · split
        · exact twins.together rfl
        · split
          · apply Twins.together _ rfl
            exact twins.of_page rfl rfl
          · exact twins.together rfl
  | await path =>
      apply Twins.together _ rfl
      have same : (plain.onPage blocks line).awaited = plain.awaited := rfl
      simp only [State.await, same]
      split
      · exact twins
      · exact twins.of_page rfl rfl
  | arrive path =>
      have same : (plain.onPage blocks line).assigning = plain.assigning := rfl
      simp only [take, arrive, same]
      split <;>
      · apply Twins.together _ rfl
        exact twins.of_page rfl rfl
  | dedent =>
      have sameIndentation : (plain.onPage blocks line).indentation = plain.indentation := rfl
      have sameLevel : (plain.onPage blocks line).functionLevel = plain.functionLevel := rfl
      simp only [take, dedent, sameIndentation, sameLevel]
      split
      · apply addItem_together
        exact twins.of_page rfl rfl
      · apply Twins.together _ rfl
        exact twins.of_page rfl rfl
  | turn number => exact commit_together twins (.int number)
  | add item => exact addItem_together twins item
  | finish => exact commit_together twins .null
  | unmark | settle | openFunction | beginImport | countImports | finishImport | indent =>
      apply Twins.together _ rfl
      exact twins.of_page rfl rfl

/-- The same plan keeps the walks side by side. -/
theorem takeAll_together (grammar : Grammar) (twins : Twins spots plain rich) (plan : Plan) :
    Together spots (plain.takeAll grammar plan) (rich.takeAll grammar plan) := by
  induction plan generalizing plain rich with
  | nil => exact twins.together rfl
  | cons step rest ih =>
      have first := take_together grammar twins step
      rw [takeAll, takeAll]
      generalize plain.take grammar step = plainly at first
      generalize rich.take grammar step = richly at first
      rcases plainly with ⟨next, _ | fault⟩
      · rcases richly with ⟨richNext, _ | fault⟩
        · exact ih (first.twins rfl)
        · cases first.fault
      · rcases richly with ⟨richNext, _ | fault⟩
        · cases first.fault
        · exact first

/-! ## Visits -/

/-- The spots of the symbols that a visit of a string left. -/
def stringSpots (before : State) (node : Element) (after : State) : List Spot :=
  match node.isOfKind Kind.string, before.line, after.line with
  | true, some shorter, some longer => Line.newSymbols before.blocks.length shorter longer
  | _, _, _ => []

theorem visitConstruct_together (settings : Settings) (wanted : Bool) (twins : Twins spots plain rich)
    (path : Path) (node : Element) :
    Together spots (plain.visitConstruct settings path node)
      (rich.visitConstruct { settings with stringSymbols := wanted } path node) := by
  have samePlan : Plan.construct settings.grammar rich path node =
      Plan.construct settings.grammar plain path node := by
    rw [twins.course]
    rfl
  unfold visitConstruct
  simp only [samePlan]
  exact takeAll_together settings.grammar twins _

/-- Spots on the line at hand do not matter for the finished lines. -/
theorem mentions_append (state : State) {others : List Spot}
    (here : ∀ spot ∈ others, spot.1 = state.blocks.length) :
    state.mentions (spots ++ others) = state.mentions spots := by
  unfold mentions
  apply List.flatMap_congr
  rintro ⟨line, block⟩ member
  have earlier : block < state.blocks.length := by
    have bound := (List.mem_zipIdx member).2.1
    omega
  cases line with
  | none => rfl
  | some line =>
      apply Item.mentionsFrom_congr
      intro place _ _
      rw [List.mem_append, or_iff_left]
      intro isOther
      exact Nat.ne_of_lt earlier (here _ isOther)

theorem stringSpots_of_same_line {before after : State} (node : Element)
    (same : after.line = before.line) : before.stringSpots node after = [] := by
  unfold stringSpots
  rw [same]
  split
  next opened alsoOpened =>
    cases opened.symm.trans alsoOpened
    exact Line.newSymbols_self _
  next => rfl

/-- A string that is plain text puts in no symbol. -/
theorem stringSpots_plainString (grammar : Grammar) (before : State) (node text : Element) :
    before.stringSpots node (before.takeAll grammar (Plan.plainString text)).state = [] := by
  unfold Plan.plainString
  split
  next value =>
    simp only [Item.makePlain]
    split
    · exact stringSpots_of_same_line node rfl
    · cases opened : before.line with
      | none => simp [stringSpots, opened]
      | some line =>
          have added : ∃ longer, line.add (.plain (Text.escapeNewlines value)) = .ok longer := by
            rcases line.add_plain_cases (Text.escapeNewlines value) with ⟨pushed, _⟩ | ⟨_, _, joined⟩
            · exact ⟨_, pushed⟩
            · exact ⟨_, joined⟩
          rcases added with ⟨longer, added⟩
          have after : (before.takeAll grammar (Plan.addMade
              (.ok (.plain (Text.escapeNewlines value))))).state.line = some longer := by
            simp [Plan.addMade, takeAll, addItem, opened, added]
          unfold stringSpots
          rw [after, opened]
          split
          next isShorter isLonger =>
            cases isShorter
            cases isLonger
            exact Line.newSymbols_addPlain added
          next => rfl
  next => exact stringSpots_of_same_line node rfl

/-- A string that holds an identifier is a symbol between its quotes in the one walk, and plain text in
the other. -/
theorem quoted_together (grammar : Grammar) (twins : Twins spots plain rich) {node : Element}
    (isString : node.isOfKind Kind.string = true) {line : Line} (opened : rich.line = some line)
    (text opening name closing : String) :
    ∃ after richAfter,
      plain.takeAll grammar [.add (.plain text)] = ⟨after, none⟩ ∧
      rich.takeAll grammar [.add (.plain opening), .add (.symbol none name), .add (.plain closing)] =
        ⟨richAfter, none⟩ ∧
      Twins (spots ++ rich.stringSpots node richAfter) after richAfter := by
  have lines := twins.lines
  generalize isPlain : plain.line = plainLine at lines
  rw [opened] at lines
  cases lines with
  | opened enriches =>
      rcases enriches.addQuoted text opening name closing with
        ⟨longer, first, second, richer, added, addedOpening, addedName, addedClosing, goesOn⟩
      have new : rich.stringSpots node { rich with line := some richer } =
          Line.newSymbols rich.blocks.length line richer := by
        simp [stringSpots, isString, opened]
      have here : ∀ spot ∈ Line.newSymbols rich.blocks.length line richer,
          spot.1 = rich.blocks.length := fun spot => Line.fst_of_mem_newSymbols
      refine ⟨{ plain with line := some longer }, { rich with line := some richer }, ?_, ?_, ?_⟩
      · simp [takeAll, addItem, isPlain, added]
      · simp [takeAll, addItem, opened, addedOpening, addedName, addedClosing]
      · rw [new]
        refine ⟨?_, ?_, ?_, .opened goesOn⟩
        · rw [twins.course]
          rfl
        · exact (rich.mentions_append here).trans twins.mentions
        · intro spot member
          rcases List.mem_append.mp member with old | added
          · exact twins.shown spot old
          · exact Or.inr (here spot added)

theorem plainString_of_quoted {text opening name closing : String}
    (found : quotedIdentifier? text = some (opening, name, closing)) :
    Plan.plainString (.text text) = [.add (.plain (Text.escapeNewlines text))] := by
  have present : text ≠ "" := by
    rintro rfl
    cases found
  simp [Plan.plainString, Item.makePlain, Plan.addMade, escapeNewlines_ne_empty present]

/-- Two visits of a node that fail together or come off together; a symbol is put in only by a string
that comes off. -/
structure VisitedAlike (spots : List Spot) (node : Element) (rich : State) (plainly richly : Attempt) :
    Prop where
  together : Together (spots ++ rich.stringSpots node richly.state) plainly richly
  silent : richly.fault.isSome → rich.stringSpots node richly.state = []

theorem Together.visitedAlike {node : Element} {plainly richly : Attempt}
    (together : Together spots plainly richly) (silent : rich.stringSpots node richly.state = []) :
    VisitedAlike spots node rich plainly richly := by
  refine ⟨?_, fun _ => silent⟩
  rw [silent, List.append_nil]
  exact together

theorem Twins.failing_alike (twins : Twins spots plain rich) (node : Element) (first second : Fault) :
    VisitedAlike spots node rich ⟨plain, some first⟩ ⟨rich, some second⟩ := by
  have together : Together spots ⟨plain, some first⟩ ⟨rich, some second⟩ := twins.together rfl
  exact together.visitedAlike (stringSpots_of_same_line node rfl)

theorem string_alike (settings : Settings) (twins : Twins spots plain rich) {node : Element}
    (isString : node.isOfKind Kind.string = true) {line : Line} (opened : rich.line = some line)
    (text : Element) :
    VisitedAlike spots node rich
      (plain.takeAll settings.grammar (Plan.string { settings with stringSymbols := false } text))
      (rich.takeAll settings.grammar (Plan.string { settings with stringSymbols := true } text)) := by
  have plainly : Plan.string { settings with stringSymbols := false } text = Plan.plainString text := rfl
  rw [plainly]
  cases text with
  | text value =>
      simp only [Plan.string, if_true]
      cases found : quotedIdentifier? value with
      | none =>
          apply (takeAll_together settings.grammar twins _).visitedAlike
          apply stringSpots_plainString
      | some parts =>
          rcases parts with ⟨opening, name, closing⟩
          rw [plainString_of_quoted found]
          rcases quoted_together settings.grammar twins isString opened (Text.escapeNewlines value)
            opening name closing with ⟨after, richAfter, added, richAdded, goesOn⟩
          simp only [added, richAdded]
          exact ⟨goesOn.together rfl, by simp⟩
  | null | bool | int | float | node | list =>
      exact twins.failing_alike node _ _

theorem stringSpots_of_not_string {node : Element} (notString : node.isOfKind Kind.string = false)
    (before after : State) : before.stringSpots node after = [] := by
  simp [stringSpots, notString]

/-- What the text of a terminal adds does not depend on the page, unless it is a string. -/
theorem token_onPage (settings : Settings) (wanted : Bool) (blocks : List (Option Line))
    (line : Option Line) (path : Path) {kind : Element} (text : Element)
    (notString : kind.isNumber Kind.string = false) :
    Plan.token { settings with stringSymbols := wanted } (plain.onPage blocks line) path kind text =
      Plan.token settings plain path kind text := by
  simp only [Plan.token, notString, Bool.false_eq_true, if_false]
  rfl

theorem visitTerminal_alike (settings : Settings) (twins : Twins spots plain rich) (path : Path)
    (node : Element) (number : Int) :
    VisitedAlike spots node rich
      (plain.visitTerminal { settings with stringSymbols := false } path node number)
      (rich.visitTerminal { settings with stringSymbols := true } path node number) := by
  unfold visitTerminal Plan.terminal
  cases hasKind : node.kind with
  | error fault => exact twins.failing_alike node fault fault
  | ok kind =>
      have isKind := Element.isOfKind_eq hasKind
      cases hasText : node.entry 1 with
      | error fault => exact twins.failing_alike node fault fault
      | ok text =>
          simp only [← isKind]
          cases isDedent : node.isOfKind Kind.dedent with
          | true =>
              have notString := Element.not_isOfKind isDedent Kind.string (by decide)
              apply (takeAll_together settings.grammar twins [.dedent]).visitedAlike
              exact stringSpots_of_not_string notString _ _
          | false =>
              have lines := twins.lines
              generalize isPlain : plain.line = plainLine at lines
              generalize isRich : rich.line = richLine at lines
              cases lines with
              | closed past => exact twins.failing_alike node _ _
              | @opened plainLine richLine enriches =>
                  cases isString : node.isOfKind Kind.string with
                  | true =>
                      have notNewline := Element.not_isOfKind isString Kind.newline (by decide)
                      have notIndent := Element.not_isOfKind isString Kind.indent (by decide)
                      rw [isKind] at isString notNewline notIndent
                      simp only [Plan.token, isString, notNewline, notIndent, Bool.not_true,
                        Bool.and_false, Bool.false_eq_true, if_false, if_true, List.nil_append]
                      exact string_alike settings twins ((isKind _).trans isString) isRich text
                  | false =>
                      have sameToken : Plan.token { settings with stringSymbols := true } rich path kind
                          text = Plan.token { settings with stringSymbols := false } plain path kind
                          text := by
                        rw [twins.course]
                        exact token_onPage { settings with stringSymbols := false } true _ _ path text
                          ((isKind _).symm.trans isString)
                      simp only [enriches.number, sameToken]
                      apply (takeAll_together settings.grammar twins _).visitedAlike
                      exact stringSpots_of_not_string isString _ _

/-- The spots of the symbols that strings left when nodes were visited one after the other; `trace` are
the states that the visits left. -/
def tracedSpots (before : State) (nodes : List (Path × Element)) (trace : List State) : List Spot :=
  match nodes, trace with
  | (_, node) :: others, after :: later => before.stringSpots node after ++ after.tracedSpots others later
  | _, _ => []

end State

namespace Walk

/-- The spots of the symbols that the strings of a tree left on the page of a walk. -/
def stringSpots (walk : Walk) (tree : Element) : List Spot :=
  State.tracedSpots {} (tree.preorder []) (walk.visits.toList.map (·.2))

/-- Two walks that have visited the same nodes and differ only in the symbols at some spots. -/
structure SideBySide (spots : List Spot) (plain rich : Walk) : Prop where
  visits : List.Forall₂ (fun visit other => other.1 = visit.1 ∧ visit.2.Alike other.2)
    plain.visits.toList rich.visits.toList
  line : rich.line = plain.line
  fault : rich.fault.isSome = plain.fault.isSome
  accords : State.Accords spots plain.state rich.state

variable {spots : List Spot} {plain rich : Walk}

/-- What it comes to when both walks visit a node: `before` is the one that puts symbols in. -/
inductive VisitedBoth (spots : List Spot) (before : Walk) (path : Path) (node : Element)
    (plain rich : Walk) : Prop where
  | failed (faulty : rich.fault.isSome) (visits : rich.visits = before.visits)
      (beside : SideBySide spots plain rich)
  | passed (sound : rich.fault = none) (visits : rich.visits = before.visits.push (path, rich.state))
      (beside : SideBySide (spots ++ before.state.stringSpots node rich.state) plain rich)
      (twins : State.Twins (spots ++ before.state.stringSpots node rich.state) plain.state rich.state)

theorem record_both (beside : SideBySide spots plain rich) (sound : rich.fault = none)
    (path : Path) {node : Element} {line richLine : Int} (sameLine : richLine = line)
    {plainly richly : Attempt} (alike : State.VisitedAlike spots node rich.state plainly richly) :
    VisitedBoth spots rich path node (plain.record path plainly line)
      (rich.record path richly richLine) := by
  have together := alike.together
  have silent := alike.silent
  rcases plainly with ⟨after, _ | fault⟩
  · rcases richly with ⟨richAfter, _ | fault⟩
    · have plainSound : plain.fault = none := by simpa [sound] using beside.fault
      have twins := together.twins rfl
      refine .passed sound rfl ⟨?_, sameLine, ?_, together.accords⟩ twins
      · simp only [record, Array.toList_push]
        exact List.rel_append beside.visits (.cons ⟨rfl, twins.alike⟩ .nil)
      · simp [record, sound, plainSound]
    · cases together.fault
  · rcases richly with ⟨richAfter, _ | fault⟩
    · cases together.fault
    · rw [silent rfl, List.append_nil] at together
      exact .failed rfl rfl ⟨beside.visits, beside.line, rfl, together.accords⟩

theorem visit_both (settings : Settings) (beside : SideBySide spots plain rich)
    (twins : State.Twins spots plain.state rich.state) (sound : rich.fault = none) (path : Path)
    (node : Element) :
    VisitedBoth spots rich path node (plain.visit { settings with stringSymbols := false } path node)
      (rich.visit { settings with stringSymbols := true } path node) := by
  have failing (fault : Fault) : VisitedBoth spots rich path node { plain with fault := some fault }
      { rich with fault := some fault } :=
    .failed rfl rfl ⟨beside.visits, beside.line, rfl, beside.accords⟩
  unfold visit
  cases node.isConstruct with
  | error fault => exact failing fault
  | ok isConstruct =>
      cases isConstruct with
      | true =>
          apply record_both beside sound path beside.line
          apply (State.visitConstruct_together { settings with stringSymbols := false } true twins path
            node).visitedAlike
          apply State.stringSpots_of_same_line
          exact (State.visitConstruct_samePage _ rich.state path node).line
      | false =>
          cases node.lineNumber with
          | error fault => exact failing fault
          | ok number =>
              apply record_both beside sound path rfl
              exact State.visitTerminal_alike settings twins path node number

/-- The walks stay side by side through any nodes. -/
theorem visitEach_sideBySide (settings : Settings) (nodes : List (Path × Element))
    (beside : SideBySide spots plain rich)
    (twins : State.Twins spots plain.state rich.state) (sound : rich.fault = none) :
    ∃ later, (visitEach { settings with stringSymbols := true } rich nodes).visits.toList =
        rich.visits.toList ++ later ∧
      SideBySide (spots ++ rich.state.tracedSpots nodes (later.map (·.2)))
        (visitEach { settings with stringSymbols := false } plain nodes)
        (visitEach { settings with stringSymbols := true } rich nodes) := by
  induction nodes generalizing spots plain rich with
  | nil =>
      refine ⟨[], by simp [visitEach], ?_⟩
      simpa [visitEach, State.tracedSpots] using beside
  | cons entry rest ih =>
      rcases entry with ⟨path, node⟩
      have both := visit_both settings beside twins sound path node
      simp only [visitEach]
      cases both with
      | failed faulty visits nextTo =>
          have plainFaulty := nextTo.fault.symm.trans faulty
          rw [if_pos faulty, if_pos plainFaulty]
          refine ⟨[], by simp [visits], ?_⟩
          simpa [State.tracedSpots] using nextTo
      | passed stillSound visits nextTo goOn =>
          have plainSound := nextTo.fault
          rw [stillSound, Option.isSome_none] at plainSound
          rw [← plainSound, stillSound]
          simp only [Option.isSome_none, Bool.false_eq_true, if_false]
          rcases ih nextTo goOn stillSound with ⟨later, grown, together⟩
          refine ⟨(path, (rich.visit { settings with stringSymbols := true } path node).state) :: later,
            ?_, ?_⟩
          · rw [grown, visits]
            simp
          · simpa [State.tracedSpots, List.append_assoc] using together

/-- Taking strings for symbols puts in symbols without a mark, where the strings are, and changes
nothing else: both walks visit the same nodes and fail at the same one or not at all, they agree on
everything but the items of lines at every step, and without the symbols that strings left their lines
mention the same symbols in the same order. -/
theorem stringSymbols_only_put_in (settings : Settings) (tree : Element) :
    let off := ofTree { settings with stringSymbols := false } tree
    let on := ofTree { settings with stringSymbols := true } tree
    List.Forall₂ (fun visit other => other.1 = visit.1 ∧ visit.2.Alike other.2)
        off.visits.toList on.visits.toList ∧
      off.state.Alike on.state ∧ on.line = off.line ∧ on.fault.isSome = off.fault.isSome ∧
      on.state.mentions (on.stringSpots tree) = off.state.mentions [] ∧
      ∀ spot ∈ on.stringSpots tree, State.Shows (on.state.blocks ++ [on.state.line]) spot := by
  have twins : State.Twins [] {} {} := by
    have started : Line.start (.int 1) = .ok { number := 1 } := rfl
    have enriches : Line.Enriches [] 0 { number := 1 } { number := 1 } :=
      Line.enriches_start started (by simp)
    exact ⟨rfl, rfl, by simp, .opened enriches⟩
  have beside : SideBySide [] {} {} := ⟨.nil, rfl, rfl, twins.accords⟩
  rcases visitEach_sideBySide settings (tree.preorder []) beside twins rfl with ⟨later, grown, nextTo⟩
  rw [← ofTree_eq_visitEach] at grown
  rw [← ofTree_eq_visitEach, ← ofTree_eq_visitEach] at nextTo
  have added : State.tracedSpots {} (tree.preorder []) (later.map (·.2)) =
      (ofTree { settings with stringSymbols := true } tree).stringSpots tree := by
    rw [stringSpots, grown]
    rfl
  simp only [List.nil_append, added] at nextTo
  exact ⟨nextTo.visits, nextTo.accords.alike, nextTo.line, nextTo.fault, nextTo.accords.mentions,
    nextTo.accords.shown⟩

end Walk

end CrossRef
