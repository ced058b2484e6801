import ObjcAtlas.Image.Reader

set_option autoImplicit false

namespace ObjcAtlas

namespace Bitness

def words (b : Bitness) (n : UInt64) : UInt64 := n * UInt64.ofNat b.pointerSize

/-- A pointer without the tag in its top byte. -/
def untagged (b : Bitness) (pointer : UInt64) : UInt64 :=
  match b with
  | .bits32 => pointer &&& 0xFFFFFFFF
  | .bits64 => pointer &&& 0x00FFFFFFFFFFFFFF

end Bitness

inductive ClassField where
  | isa | superclass | data
deriving DecidableEq, Repr

inductive ClassDataField where
  | flags | instanceStart | instanceSize | name | methods | protocols | ivars | properties
deriving DecidableEq, Repr

inductive ProtocolField where
  | name | protocols | instanceMethods | classMethods | optionalInstanceMethods
  | optionalClassMethods | properties | size | extendedTypes | classProperties
deriving DecidableEq, Repr

inductive CategoryField where
  | name | target | instanceMethods | classMethods | protocols | properties | classProperties
deriving DecidableEq, Repr

def ClassField.offset (b : Bitness) : ClassField → UInt64
  | .isa => 0
  | .superclass => b.words 1
  | .data => b.words 4

namespace ClassDataField

/-- Where the pointers start: behind three numbers, aligned. -/
def pointers : Bitness → UInt64
  | .bits32 => 12
  | .bits64 => 16

def offset (b : Bitness) : ClassDataField → UInt64
  | .flags => 0
  | .instanceStart => 4
  | .instanceSize => 8
  | .name => pointers b + b.words 1
  | .methods => pointers b + b.words 2
  | .protocols => pointers b + b.words 3
  | .ivars => pointers b + b.words 4
  | .properties => pointers b + b.words 6

end ClassDataField

def ProtocolField.offset (b : Bitness) : ProtocolField → UInt64
  | .name => b.words 1
  | .protocols => b.words 2
  | .instanceMethods => b.words 3
  | .classMethods => b.words 4
  | .optionalInstanceMethods => b.words 5
  | .optionalClassMethods => b.words 6
  | .properties => b.words 7
  | .size => b.words 8
  | .extendedTypes => b.words 8 + 8
  | .classProperties => b.words 10 + 8

def CategoryField.offset (b : Bitness) : CategoryField → UInt64
  | .name => 0
  | .target => b.words 1
  | .instanceMethods => b.words 2
  | .classMethods => b.words 3
  | .protocols => b.words 4
  | .properties => b.words 5
  | .classProperties => b.words 6

namespace Layout

def methodSize (b : Bitness) : UInt64 := b.words 3

def relativeMethodSize : UInt64 := 12

def ivarSize (b : Bitness) : UInt64 := b.words 3 + 8

def propertySize (b : Bitness) : UInt64 := b.words 2

def methodFlagsMask : UInt32 := 0xFFFF0003

def isRelative (flags : UInt32) : Bool := flags &&& 0x80000000 != 0

def hasDirectSelectors (flags : UInt32) : Bool := flags &&& 0x40000000 != 0

def isRoot (flags : UInt32) : Bool := flags &&& 2 != 0

/-- A class's data pointer without the bits that share its word. -/
def classData (b : Bitness) (word : UInt64) : UInt64 :=
  match b with
  | .bits32 => word &&& 0xFFFFFFFC
  | .bits64 => word &&& 0x00007FFFFFFFFFF8

def isSwift (b : Bitness) (word : UInt64) : Bool :=
  match b with
  | .bits32 => word &&& 1 != 0
  | .bits64 => word &&& 3 != 0

end Layout

end ObjcAtlas
