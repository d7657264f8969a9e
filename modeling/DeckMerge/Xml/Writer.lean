import DeckMerge.Xml.Document

/-!
Writing documents: a declaration, and the root with its declarations before its attributes. Elements
without content close themselves.
-/

namespace DeckMerge.Xml

def escapeTextChar : Char → Text
  | '<' => "&lt;"
  | '>' => "&gt;"
  | '&' => "&amp;"
  | '\r' => "&#13;"
  | c => [c]

/-- A character of an attribute's value; in a document that names no encoding, those beyond ASCII are
written by their numbers. -/
def escapeValueChar (named : Bool) : Char → Text
  | '"' => "&quot;"
  | '\n' => "&#10;"
  | '\t' => "&#9;"
  | c =>
    if !named && 0x80 ≤ c.toNat then "&#x" ++ (Text.hex 1 c.toNat).map Char.toUpper ++ ";"
    else escapeTextChar c

def writeAttribute (named : Bool) (name value : Text) : Text :=
  ' ' :: name ++ "=\"" ++ value.flatMap (escapeValueChar named) ++ "\""

def Tag.write (named : Bool) (t : Tag) : Text :=
  t.name.written
    ++ (t.declarations.flatMap fun (pfx, uri) =>
      writeAttribute named (if pfx = [] then "xmlns" else "xmlns:" ++ pfx) uri)
    ++ t.attributes.flatMap fun a => writeAttribute named a.name.written a.value

mutual

def Node.write (named : Bool) : Node → Text
  | .element t [] => "<" ++ t.write named ++ "/>"
  | .element t (n :: ns) =>
    "<" ++ t.write named ++ ">" ++ n.write named ++ writeNodes named ns ++ "</" ++ t.name.written ++ ">"
  | .text s => s.flatMap escapeTextChar
  | .comment s => "<!--" ++ s ++ "-->"
  | .instruction target data =>
    "<?" ++ target ++ (if data = [] then [] else ' ' :: data) ++ "?>"

def writeNodes (named : Bool) : List Node → Text
  | [] => []
  | n :: ns => n.write named ++ writeNodes named ns

end

def Document.write (d : Document) : Text :=
  "<?xml version='" ++ d.declaration.version ++ "' encoding='UTF-8' standalone='yes'?>\n"
    ++ (d.root : Node).write d.declaration.encoding.isSome

end DeckMerge.Xml
