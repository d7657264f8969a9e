import DeckMerge.Placeholder.Token

/-!
The tree of a text's placeholders. A closing marker pairs with the nearest open block of its kind and
key; markers that find no partner stay in the tree as strays.
-/

namespace DeckMerge.Placeholder

structure Marker where
  token : Token
  start : Nat
deriving DecidableEq

def Marker.stop (m : Marker) : Nat := m.start + m.token.text.length

/-- Whether an opening marker is the partner of a closing one. -/
def Marker.opens (m closer : Marker) : Bool :=
  closer.token.kind.opener? == some m.token.kind && m.token.key == closer.token.key

inductive Node
  | literal (text : Text)
  | scalar (key : Text)
  | stray (marker : Marker)
  | block (opener : Marker) (children : List Node) (closer : Marker)

namespace Node

def isLoop : Node → Bool
  | .block opener _ _ => opener.token.kind == .loopOpen
  | _ => false

mutual

def text : Node → Text
  | .literal s => s
  | .scalar key => scalarText key
  | .stray m => m.token.text
  | .block opener children closer => opener.token.text ++ textAll children ++ closer.token.text

def textAll : List Node → Text
  | [] => []
  | n :: ns => n.text ++ textAll ns

end

end Node

/-- A block that is still open: its marker, and what preceded it at its level, latest first. -/
abbrev Frame := Marker × List Node

/-- A tree under construction: the open blocks, innermost first, and the nodes of the innermost level,
latest first. -/
abbrev Builder := List Frame × List Node

namespace Builder

/-- Closes the nearest block that the marker belongs to; the blocks left open inside it fall apart
into a stray marker and their nodes. -/
def close? (closer : Marker) : List Frame → List Node → Option Builder
  | [], _ => none
  | (opener, before) :: frames, level =>
    if opener.opens closer then some (frames, .block opener level.reverse closer :: before)
    else close? closer frames (level ++ .stray opener :: before)

def add : Builder → Span → Builder
  | (frames, level), .literal s _ => (frames, .literal s :: level)
  | (frames, level), .token t start =>
    match t.kind with
    | .scalar => (frames, .scalar t.key :: level)
    | .condOpen | .loopOpen => ((⟨t, start⟩, level) :: frames, [])
    | .condClose | .loopClose =>
      (close? ⟨t, start⟩ frames level).getD (frames, .stray ⟨t, start⟩ :: level)

/-- All nodes in order; the blocks that are still open fall apart. -/
def finish : List Frame → List Node → List Node
  | [], level => level.reverse
  | (opener, before) :: frames, level => finish frames (level ++ .stray opener :: before)

end Builder

def treeOf (spans : List Span) : List Node :=
  let (frames, level) := spans.foldl Builder.add ([], [])
  Builder.finish frames level

def parse (s : Text) : List Node := treeOf (scan s)

end DeckMerge.Placeholder
