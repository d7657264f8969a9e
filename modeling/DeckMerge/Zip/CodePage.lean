import DeckMerge.Text.Utf8

/-!
The code page of names that are not in UTF-8: ASCII, and 128 letters, signs and parts of boxes.
-/

namespace DeckMerge.Zip

def upperHalf : Array Char :=
  ("ÇüéâäàåçêëèïîìÄÅÉæÆôöòûùÿÖÜ¢£¥₧ƒáíóúñÑªº¿⌐¬½¼¡«»░▒▓│┤╡╢╖╕╣║╗╝╜╛┐└┴┬├─┼╞╟╚╔╩╦╠═╬╧╨╤╥╙╘╒╓╫╪┘┌█▄▌▐▀"
    ++ "αßΓπΣσµτΦΘΩδ∞φε∩≡±≥≤⌠⌡÷≈°∙·√ⁿ²■\u00a0").toList.toArray

def codePageChar (b : UInt8) : Char :=
  if b < 0x80 then Char.ofNat b.toNat else upperHalf[b.toNat - 0x80]?.getD ' '

def ofCodePage (bs : Bytes) : Text := bs.map codePageChar

end DeckMerge.Zip
