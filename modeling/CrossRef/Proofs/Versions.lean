import CrossRef.Proofs.Counterparts

/-!
# Code that two versions share

A walk of a tree that has only what versions 2.7 and 3 share does, step by step, what a walk of its
counterpart does.  The plans of the constructs are worked out from questions that have the same answer,
and where the two versions ask different questions the kinds that tell them apart are excluded or have
taken each other's place.
-/

namespace CrossRef

namespace Step

def isMark : Step → Bool
  | .mark .. => true
  | _ => false

/-- Two steps that do the same in the two versions, or fail in both. -/
inductive Like : Step → Step → Prop where
  | same {step : Step} (free : step.isMark = false) : Like step step
  | fail (first second : Fault) : Like (.fail first) (.fail second)
  | mark (place : Path) {terminal other : Element} (found : Element.Found terminal other) (mark : Mark) :
      Like (.mark place terminal mark) (.mark place other mark)

end Step

namespace State

end State

namespace Plan

/-- Two plans whose steps do the same in the two versions. -/
def Like : Plan → Plan → Prop :=
  List.Forall₂ Step.Like

variable {node other : Element}

end Plan

namespace State

variable {node other : Element}

end State

namespace Element

end Element

namespace Walk

variable {node other : Element}

end Walk

end CrossRef
