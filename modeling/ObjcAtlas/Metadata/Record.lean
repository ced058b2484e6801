import ObjcAtlas.Encoding.Memo
import ObjcAtlas.Image.Slice
import ObjcAtlas.Metadata.ImageInfo
import ObjcAtlas.Metadata.Layout
import ObjcAtlas.Metadata.Warning

set_option autoImplicit false

namespace ObjcAtlas

inductive RecordKind where
  | objcClass | category | protocol
deriving DecidableEq, Repr

def RecordKind.word : RecordKind → String
  | .objcClass => "class"
  | .category => "category"
  | .protocol => "protocol"

inductive RecordName where
  | known (name : String)
  /-- Stands in for a name that cannot be read. -/
  | unknown (kind : RecordKind) (address : UInt64)
deriving DecidableEq, Repr

namespace RecordName

def text : RecordName → String
  | .known name => name
  | .unknown kind address => "<" ++ kind.word ++ " " ++ Text.hex address.toNat ++ ">"

def ofOption (kind : RecordKind) (address : UInt64) : Option String → RecordName
  | some name => .known name
  | none => .unknown kind address

end RecordName

inductive ClassReference where
  | none
  | local (name : RecordName) (address : UInt64)
  | external (name : String) (library : Option String)
  | dangling (address : UInt64)
deriving DecidableEq, Repr

namespace ClassReference

def name? : ClassReference → Option String
  | .local name _ => some name.text
  | .external name _ => some name
  | .none | .dangling _ => Option.none

def isDangling : ClassReference → Bool
  | .dangling _ => true
  | _ => false

def nameOfSymbol (symbol : String) : String :=
  ((Text.afterLead? "_OBJC_CLASS_$_" symbol).or
    (Text.afterLead? "_OBJC_METACLASS_$_" symbol)).getD symbol

end ClassReference

def protocolOfSymbol (symbol : String) : String :=
  (Text.afterLead? "__OBJC_PROTOCOL_$_" symbol).getD symbol

structure MethodRecord where
  name : String
  encoding : String
  /-- Encoding with class names, which only protocols keep. -/
  extendedEncoding : Option String := none
  signature : Option MethodSignature := none
  implementation : Option UInt64
deriving DecidableEq

structure IvarRecord where
  name : String
  encoding : String
  type : Option ObjcType := none
  offset : Option UInt32
  size : UInt32
  alignment : UInt32
deriving DecidableEq

structure PropertyRecord where
  name : String
  attributes : String
  decoded : Option PropertyAttributes := none
deriving DecidableEq

structure ClassRecord where
  name : RecordName
  address : UInt64
  superclass : ClassReference
  flags : UInt32 := 0
  isSwift : Bool := false
  instanceStart : UInt32 := 0
  instanceSize : UInt32 := 0
  ivars : List IvarRecord := []
  instanceMethods : List MethodRecord := []
  classMethods : List MethodRecord := []
  protocols : List String := []
  properties : List PropertyRecord := []
  classProperties : List PropertyRecord := []
  /-- Whether any part could not be read. -/
  degraded : Bool := false
deriving DecidableEq

structure CategoryRecord where
  name : RecordName
  address : UInt64
  target : ClassReference
  instanceMethods : List MethodRecord
  classMethods : List MethodRecord
  protocols : List String
  properties : List PropertyRecord
  classProperties : List PropertyRecord := []
  degraded : Bool := false
deriving DecidableEq

structure ProtocolRecord where
  name : RecordName
  address : UInt64
  protocols : List String
  instanceMethods : List MethodRecord
  classMethods : List MethodRecord
  optionalInstanceMethods : List MethodRecord
  optionalClassMethods : List MethodRecord
  properties : List PropertyRecord
  classProperties : List PropertyRecord := []
  degraded : Bool := false
deriving DecidableEq

def ClassRecord.isRoot (c : ClassRecord) : Bool := Layout.isRoot c.flags

end ObjcAtlas
