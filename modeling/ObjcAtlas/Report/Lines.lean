import ObjcAtlas.Json

set_option autoImplicit false

namespace ObjcAtlas

inductive ReportFormat where
  | text | json
deriving DecidableEq, Repr

namespace Report

def lines (ls : List String) : String := String.join (ls.map (· ++ "\n"))

def render (format : ReportFormat) (text : List String) (json : Json) : String :=
  match format with
  | .text => lines text
  | .json => json.pretty ++ "\n"

end Report

end ObjcAtlas
