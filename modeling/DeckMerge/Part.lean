import DeckMerge.Run.Injection
import DeckMerge.Run.Joining

/-!
Rendering one part of a template: split runs are joined, placeholders are expanded against the
binding, and the values are written into their slots.
-/

namespace DeckMerge

structure Part where
  text : Text
  /-- Placeholders that were left over and deleted. -/
  residuals : Nat
  outcomes : List Run.Outcome
  notes : List Note
deriving DecidableEq

namespace Part

def fallbacks (p : Part) : Nat := p.outcomes.countP fun o => o.mode = .fallback

def render (name : Option Text) (s : Text) (binding : Placeholder.Binding) : Except Fault Part := do
  let (s, removed) := Run.joinRuns s
  let e ← Placeholder.expand s binding
  let (s, outcomes, notes) := Run.fillSlots name e.text e.slots
  let shown : Text := match name with
    | none | some [] => "part"
    | some n => n
  let cleaned := if e.residuals = 0 then [] else
    [.template .debug (shown ++ ": removed " ++ Text.ofNat e.residuals ++ " unresolved placeholders")]
  return ⟨s, e.residuals, outcomes, Run.joinNotes name removed ++ notes ++ cleaned⟩

/-- Whether a text has placeholders, be they split over runs. -/
def isTemplated (s : Text) : Bool := Placeholder.hasTokens (Run.joinRuns s).1

end Part

end DeckMerge
