set_option autoImplicit false

namespace ObjcAtlas

inductive Primitive where
  | char | int | short | long | longLong
  | unsignedChar | unsignedInt | unsignedShort | unsignedLong | unsignedLongLong
  | int128 | unsignedInt128
  | float | double | longDouble
  | bool | void | cString | classRef | selector
  | unknown
deriving DecidableEq, Repr

namespace Primitive

def all : List Primitive :=
  [.char, .int, .short, .long, .longLong, .unsignedChar, .unsignedInt, .unsignedShort,
    .unsignedLong, .unsignedLongLong, .int128, .unsignedInt128, .float, .double, .longDouble,
    .bool, .void, .cString, .classRef, .selector, .unknown]

def code : Primitive → Char
  | .char => 'c' | .int => 'i' | .short => 's' | .long => 'l' | .longLong => 'q'
  | .unsignedChar => 'C' | .unsignedInt => 'I' | .unsignedShort => 'S'
  | .unsignedLong => 'L' | .unsignedLongLong => 'Q'
  | .int128 => 't' | .unsignedInt128 => 'T'
  | .float => 'f' | .double => 'd' | .longDouble => 'D'
  | .bool => 'B' | .void => 'v' | .cString => '*' | .classRef => '#' | .selector => ':'
  | .unknown => '?'

def ofCode? (c : Char) : Option Primitive := all.find? fun p => p.code == c

theorem mem_all (p : Primitive) : p ∈ all := by cases p <;> decide

theorem ofCode?_code (p : Primitive) : ofCode? p.code = some p := by cases p <;> rfl

theorem code_of_ofCode? {c : Char} {p : Primitive} (h : ofCode? c = some p) : p.code = c := by
  simpa using List.find?_some h

def cName : Primitive → String
  | .char => "char" | .int => "int" | .short => "short" | .long => "long"
  | .longLong => "long long"
  | .unsignedChar => "unsigned char" | .unsignedInt => "unsigned int"
  | .unsignedShort => "unsigned short" | .unsignedLong => "unsigned long"
  | .unsignedLongLong => "unsigned long long"
  | .int128 => "__int128" | .unsignedInt128 => "unsigned __int128"
  | .float => "float" | .double => "double" | .longDouble => "long double"
  | .bool => "_Bool" | .void => "void" | .cString => "char *" | .classRef => "Class"
  | .selector => "SEL" | .unknown => "?"

def label : Primitive → String
  | .char => "char" | .int => "int" | .short => "short" | .long => "long"
  | .longLong => "long_long"
  | .unsignedChar => "unsigned_char" | .unsignedInt => "unsigned_int"
  | .unsignedShort => "unsigned_short" | .unsignedLong => "unsigned_long"
  | .unsignedLongLong => "unsigned_long_long"
  | .int128 => "int128" | .unsignedInt128 => "unsigned_int128"
  | .float => "float" | .double => "double" | .longDouble => "long_double"
  | .bool => "bool" | .void => "void" | .cString => "c_string" | .classRef => "class"
  | .selector => "selector" | .unknown => "unknown"

def ofLabel? (s : String) : Option Primitive := all.find? fun p => p.label == s

end Primitive

inductive Qualifier where
  | const | inArg | inOut | outArg | byCopy | byRef | oneWay | atomic | complex
deriving DecidableEq, Repr

namespace Qualifier

def all : List Qualifier :=
  [.const, .inArg, .inOut, .outArg, .byCopy, .byRef, .oneWay, .atomic, .complex]

def code : Qualifier → Char
  | .const => 'r' | .inArg => 'n' | .inOut => 'N' | .outArg => 'o' | .byCopy => 'O'
  | .byRef => 'R' | .oneWay => 'V' | .atomic => 'A' | .complex => 'j'

def ofCode? (c : Char) : Option Qualifier := all.find? fun q => q.code == c

theorem mem_all (q : Qualifier) : q ∈ all := by cases q <;> decide

theorem ofCode?_code (q : Qualifier) : ofCode? q.code = some q := by cases q <;> rfl

theorem code_of_ofCode? {c : Char} {q : Qualifier} (h : ofCode? c = some q) : q.code = c := by
  simpa using List.find?_some h

def keyword : Qualifier → String
  | .const => "const" | .inArg => "in" | .inOut => "inout" | .outArg => "out"
  | .byCopy => "bycopy" | .byRef => "byref" | .oneWay => "oneway" | .atomic => "_Atomic"
  | .complex => "_Complex"

def label : Qualifier → String
  | .const => "const" | .inArg => "in" | .inOut => "inout" | .outArg => "out"
  | .byCopy => "bycopy" | .byRef => "byref" | .oneWay => "oneway" | .atomic => "atomic"
  | .complex => "complex"

def ofLabel? (s : String) : Option Qualifier := all.find? fun q => q.label == s

end Qualifier

end ObjcAtlas
