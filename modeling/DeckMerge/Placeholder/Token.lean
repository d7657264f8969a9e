import DeckMerge.Text.Basic

/-!
Placeholder tokens: a scalar stands for a value, the other kinds open and close conditional blocks
and loops. `scan` cuts a text into tokens and the literal text between them.
-/

namespace DeckMerge.Placeholder

inductive Kind
  | scalar
  | condOpen
  | condClose
  | loopOpen
  | loopClose
deriving DecidableEq

namespace Kind

def all : List Kind := [.scalar, .condOpen, .condClose, .loopOpen, .loopClose]

def opening : Kind → Text
  | .scalar => "\x7b\x7b"
  | .condOpen => "\x7b?"
  | .condClose => "\x7b/?"
  | .loopOpen => "\x7b#"
  | .loopClose => "\x7b/"

def closing : Kind → Text
  | .scalar => "\x7d\x7d"
  | _ => "\x7d"

/-- The kind of marker that a closing marker belongs to. -/
def opener? : Kind → Option Kind
  | .condClose => some .condOpen
  | .loopClose => some .loopOpen
  | _ => none

end Kind

structure Token where
  kind : Kind
  key : Text
deriving DecidableEq

/-- Capital letters, digits and the underscore of ASCII. -/
def isKeyChar (c : Char) : Bool := ('A' ≤ c && c ≤ 'Z') || ('0' ≤ c && c ≤ '9') || c == '_'

def scalarText (key : Text) : Text := Kind.scalar.opening ++ key ++ Kind.scalar.closing

namespace Token

def text (t : Token) : Text := t.kind.opening ++ t.key ++ t.kind.closing

/-- Keys are not empty and hold nothing but key characters. -/
def Valid (t : Token) : Prop := t.key ≠ [] ∧ ∀ c ∈ t.key, isKeyChar c

def readAs? (kind : Kind) (s : Text) : Option (Token × Text) := do
  let rest ← kind.opening.isPrefixOf? s
  let (key, rest) := rest.span isKeyChar
  if key = [] then none
  let rest ← kind.closing.isPrefixOf? rest
  return (⟨kind, key⟩, rest)

def read? : Recogniser Token := fun s => Kind.all.findSome? fun kind => readAs? kind s

end Token

/-- Literal text or a token, with the offset where it starts. -/
inductive Span
  | literal (text : Text) (start : Nat)
  | token (t : Token) (start : Nat)
deriving DecidableEq

namespace Span

def text : Span → Text
  | .literal s _ => s
  | .token t _ => t.text

def start : Span → Nat
  | .literal _ n => n
  | .token _ n => n

def stop (p : Span) : Nat := p.start + p.text.length

end Span

def literalSpan (s : Text) (start : Nat) : List Span := if s = [] then [] else [.literal s start]

def spansFrom (start : Nat) : List (Text × Token) → Text → List Span
  | [], tail => literalSpan tail start
  | (before, t) :: found, tail =>
    let start' := start + before.length
    literalSpan before start ++ .token t start' :: spansFrom (start' + t.text.length) found tail

def scan (s : Text) : List Span :=
  let (found, tail) := Token.read?.findAll s
  spansFrom 0 found tail

def tokens (s : Text) : List Token := (Token.read?.findAll s).1.map (·.2)

/-- The keys of a text's tokens, each at its first place. -/
def keys (s : Text) : List Text :=
  (tokens s).foldl (fun ks t => if t.key ∈ ks then ks else ks ++ [t.key]) []

def hasTokens (s : Text) : Bool := (Token.read?.find? s).isSome

/-- The text without its tokens, and how many there were. -/
def strip (s : Text) : Text × Nat :=
  let (found, tail) := Token.read?.findAll s
  (found.flatMap (·.1) ++ tail, found.length)

end DeckMerge.Placeholder
