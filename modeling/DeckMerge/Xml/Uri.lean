import DeckMerge.Text.Basic

/-!
URI references, as namespaces are named by: their grammar, and whether one is absolute.
-/

namespace DeckMerge.Xml.Uri

def isUnreserved (c : Char) : Bool := c.isAlphanum || c == '-' || c == '.' || c == '_' || c == '~'

def isDelimiter (c : Char) : Bool := "!$&'()*+,;=".toList.contains c

/-- Skips characters of a class and octets that are written with a percent sign. -/
def skip (p : Char → Bool) : Text → Text
  | '%' :: a :: b :: s =>
    if (Text.hexDigit? a).isSome && (Text.hexDigit? b).isSome then skip p s else '%' :: a :: b :: s
  | c :: s => if isUnreserved c || isDelimiter c || p c then skip p s else c :: s
  | [] => []

/-- What follows the scheme, when there is one. -/
def afterScheme? : Text → Option Text
  | [] => none
  | c :: s =>
    if c.isAlpha then
      match s.dropWhile fun c => c.isAlphanum || c == '+' || c == '-' || c == '.' with
      | ':' :: rest => some rest
      | _ => none
    else none

def isPathChar (c : Char) : Bool := c == ':' || c == '@' || c == '/'

/-- What follows the authority: user, host and port. -/
def afterAuthority? (s : Text) : Option Text :=
  let s := match skip (· == ':') s with
    | '@' :: rest => rest
    | _ => s
  let host? := match s with
    | '[' :: rest => match rest.dropWhile (· != ']') with
      | ']' :: rest => some rest
      | _ => none
    | _ => some (skip (fun _ => false) s)
  host?.map fun s => match s with
    | ':' :: rest => rest.dropWhile Char.isDigit
    | _ => s

/-- Whether a query and a fragment, if any, are all that is left. -/
def isEnding (s : Text) : Bool :=
  let s := match s with
    | '?' :: rest => skip (fun c => isPathChar c || c == '?') rest
    | _ => s
  match s with
  | '#' :: rest => skip (fun c => isPathChar c || c == '?' || c == '[' || c == ']') rest == []
  | _ => s == []

/-- Whether an optional authority, a path and an ending are all that is left. -/
def isHierarchy (s : Text) : Bool :=
  match s with
  | '/' :: '/' :: rest => match afterAuthority? rest with
    | some ('/' :: rest) => isEnding (skip isPathChar rest)
    | some rest => isEnding rest
    | none => false
  | _ => isEnding (skip isPathChar s)

def isAbsolute (s : Text) : Bool :=
  match afterScheme? s with
  | some rest => isHierarchy rest
  | none => false

/-- A reference that is not absolute has no colon in its first segment. -/
def isRelative (s : Text) : Bool :=
  match skip (· == '@') s with
  | ':' :: _ => match s with
    | '/' :: _ => isHierarchy s
    | _ => false
  | _ => isHierarchy s

def isReference (s : Text) : Bool := isAbsolute s || isRelative s

end DeckMerge.Xml.Uri
