set_option autoImplicit false

namespace ObjcAtlas

structure ImageInfo where
  version : UInt32
  flags : UInt32
deriving DecidableEq, Repr

namespace ImageInfo

def hasFlag (i : ImageInfo) (mask : UInt32) : Bool := i.flags &&& mask != 0

def isSimulated (i : ImageInfo) : Bool := i.hasFlag 0x20

/-- Selectors and protocols were made unique by the shared cache. -/
def isOptimized (i : ImageInfo) : Bool := i.hasFlag 0x8

/-- Can or must run with garbage collection. -/
def supportsCollection (i : ImageInfo) : Bool := i.hasFlag 0x6

def hasCategoryClassProperties (i : ImageInfo) : Bool := i.hasFlag 0x40

def swiftUnstableVersion (i : ImageInfo) : UInt8 := (i.flags >>> 8).toUInt8

def swiftStableVersion (i : ImageInfo) : UInt16 := (i.flags >>> 16).toUInt16

def hasSwift (i : ImageInfo) : Bool := i.swiftUnstableVersion != 0 || i.swiftStableVersion != 0

end ImageInfo

end ObjcAtlas
