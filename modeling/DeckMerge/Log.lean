import DeckMerge.Text.Basic

/-!
Notes that a step takes for the log.
-/

namespace DeckMerge

inductive Level
  | debug
  | info
  | success
  | warning
  | error
deriving DecidableEq

structure Note where
  level : Level
  text : Text
deriving DecidableEq

def Note.template (level : Level) (text : Text) : Note := ⟨level, "[template] " ++ text⟩

def Note.intake (level : Level) (text : Text) : Note := ⟨level, "[intake] " ++ text⟩

end DeckMerge
