import DeckMerge.Report
import DeckMerge.Text.Digit
import DeckMerge.Value

/-!
References between the values of a document. A text may hold paths to other values, between a dollar
sign with a brace and a closing brace; a path that starts with dots counts from the place it stands at.
A text that is nothing but one reference has the value referred to, and any other text has the displayed
forms in place of its references.
-/

namespace DeckMerge.Document

inductive Reference
  /-- A name that is spelled out. -/
  | name (s : Text)
  /-- Names on a path, after dots that each go up one level. -/
  | path (dots : Nat) (names : List Reference)

inductive Piece
  | literal (s : Text)
  | reference (r : Reference)

def opening : Text := "$\x7b"

def isReferring (s : Text) : Bool := Text.holds s opening

/-! ### Reading -/

def isNameChar (c : Char) : Bool := !("\\\x7b\x7d()[]:. \t'\"".toList.contains c)

def skipBlanks (s : Text) : Text := s.dropWhile fun c => c == ' ' || c == '\t'

mutual

def readReference : Nat → Text → Option (Reference × Text)
  | 0, _ => none
  | fuel + 1, s => do
    let (dots, s) := (skipBlanks s).span (· == '.')
    let (names, s) ← readNames fuel true s
    return (.path dots.length names, s)

/-- The names of a path and its closing brace; the first name has no dot before it. -/
def readNames : Nat → Bool → Text → Option (List Reference × Text)
  | 0, _, _ => none
  | fuel + 1, isFirst, s =>
    match s with
    | '[' :: s => do
      let (n, s) ← readName fuel s
      match s with
      | ']' :: s => do
        let (ns, s) ← readNames fuel false s
        return (n :: ns, s)
      | _ => none
    | '.' :: s =>
      if isFirst then none
      else do
        let (n, s) ← readName fuel s
        let (ns, s) ← readNames fuel false s
        return (n :: ns, s)
    | _ =>
      if isFirst then do
        let (n, s) ← readName fuel s
        let (ns, s) ← readNames fuel false s
        return (n :: ns, s)
      else match skipBlanks s with
        | '\x7d' :: s => some ([], s)
        | _ => none

/-- A name, or a reference to one. -/
def readName : Nat → Text → Option (Reference × Text)
  | 0, _ => none
  | fuel + 1, s =>
    match opening.isPrefixOf? s with
    | some s => readReference fuel s
    | none =>
      match s.span isNameChar with
      | ([], _) => none
      | (name, s) => some (.name name, s)

end

/-- The pieces of a text. An odd count of backslashes before a reference makes it plain text, and each
two of them stand for one. -/
def readPieces : Nat → Text → Option (List Piece)
  | 0, _ => none
  | _ + 1, [] => some []
  | fuel + 1, s => do
    let (slashes, rest) := s.span (· == '\\')
    match opening.isPrefixOf? rest with
    | some rest =>
      let half := slashes.take (slashes.length / 2)
      if slashes.length % 2 = 1 then return .literal (half ++ opening) :: (← readPieces fuel rest)
      else
        let (r, rest) ← readReference fuel rest
        return .literal half :: .reference r :: (← readPieces fuel rest)
    | none =>
      match rest with
      | [] => return [.literal slashes]
      | c :: rest => return .literal (slashes ++ [c]) :: (← readPieces fuel rest)

def piecesOf (s : Text) : Option (List Piece) :=
  (readPieces (2 * s.length + 2) s).map fun ps =>
    ps.filter fun p => match p with
      | .literal [] => false
      | _ => true

/-! ### Places -/

inductive Step
  | field (k : Key)
  | item (n : Nat)

abbrev Place := List Step

def child? (v : Value) : Step → Option Value
  | .field k => match v with
    | .mapping fields => fields.lookup k
    | _ => none
  | .item n => match v with
    | .list items => items[n]?
    | _ => none

def get? (root : Value) (p : Place) : Option Value := p.foldlM child? root

def stepTo? (v : Value) (name : Text) : Option Step :=
  match v with
  | .mapping fields => if (fields.lookup (.text name)).isSome then some (.field (.text name)) else none
  | .list items => match Text.readInt? name with
    | some (.ofNat n) => if n < items.length then some (.item n) else none
    | _ => none
  | _ => none

/-- What a reference leads to: a place, or a text that was put together. -/
inductive Target
  | place (p : Place)
  | text (s : Text)

def missing : Text := "???"

variable (root : Value)

mutual

/-- What stands at a place, once references are followed. -/
def settle : Nat → Place → Except Fault Target
  | 0, _ => .error .badReference
  | fuel + 1, p =>
    match get? root p with
    | some (.text s) =>
      if isReferring s then
        match piecesOf s with
        | some [.reference r] => follow fuel p r
        | some ps => do return .text (← ps.mapM (pieceText fuel p)).flatten
        | none => .error .badReference
      else .ok (.place p)
    | some _ => .ok (.place p)
    | none => .error .badReference

def pieceText : Nat → Place → Piece → Except Fault Text
  | 0, _, _ => .error .badReference
  | _ + 1, _, .literal s => .ok s
  | fuel + 1, p, .reference r => do return (← valueOf fuel (← follow fuel p r)).display

/-- What a reference that stands at a place leads to. -/
def follow : Nat → Place → Reference → Except Fault Target
  | 0, _, _ => .error .badReference
  | _ + 1, _, .name s => .ok (.text s)
  | fuel + 1, p, .path dots names => do
    if p.length < dots then .error .badReference
    let names ← names.mapM fun n => pieceText fuel p (.reference n)
    walk fuel (if dots = 0 then [] else p.take (p.length - dots)) names

/-- Goes along names from a place. What it ends at must not be missing. -/
def walk : Nat → Place → List Text → Except Fault Target
  | 0, _, _ => .error .badReference
  | fuel + 1, p, names => do
    match ← settle fuel p, names with
    | .text s, [] => return .text s
    | .text _, _ => .error .badReference
    | .place q, [] =>
      match get? root q with
      | some (.text s) => if s = missing then .error .badReference else return .place q
      | _ => return .place q
    | .place q, name :: names =>
      match (get? root q).bind fun v => stepTo? v name with
      | some step => walk fuel (q ++ [step]) names
      | none => .error .badReference

/-- The value of a target, with all references in it followed. Keys have to be something. -/
def valueOf : Nat → Target → Except Fault Value
  | 0, _ => .error .badReference
  | _ + 1, .text s => .ok (.text s)
  | fuel + 1, .place p => do
    match get? root p with
    | some (.list items) =>
      return .list (← (List.range items.length).mapM fun n => do
        valueOf fuel (← settle fuel (p ++ [.item n])))
    | some (.mapping fields) =>
      return .mapping (← fields.mapM fun (k, _) => do
        if k = .null then .error .badReference
        return (k, ← valueOf fuel (← settle fuel (p ++ [.field k]))))
    | some v => return v
    | none => .error .badReference

end

def resolve : Except Fault Value := valueOf root (8 * (root.shown.length + 1)) (.place [])

end DeckMerge.Document
