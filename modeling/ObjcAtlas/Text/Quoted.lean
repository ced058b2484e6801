import ObjcAtlas.Text.Invisible
import ObjcAtlas.Text.Number

set_option autoImplicit false

namespace ObjcAtlas.Text

def quotedChar (mark c : Char) : String :=
  if c = '\x00' then "\\0"
  else if c = '\t' then "\\t"
  else if c = '\r' then "\\r"
  else if c = '\n' then "\\n"
  else if c = '\\' || c = mark then "\\" ++ c.toString
  else if isInvisible c then "\\u\x7b" ++ hexDigits c.toNat ++ "\x7d"
  else c.toString

def quoted (s : String) : String := "\"" ++ String.join (s.toList.map (quotedChar '"')) ++ "\""

def quotedSingle (c : Char) : String := "'" ++ quotedChar '\'' c ++ "'"

end ObjcAtlas.Text
