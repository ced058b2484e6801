import ObjcAtlas.Image.Reader

set_option autoImplicit false

namespace ObjcAtlas

inductive PointerFormat where
  | arm64e | ptr64 | ptr32 | ptr32Cache | ptr32Firmware | ptr64Offset | arm64eKernel
  | ptr64KernelCache | arm64eUserland | arm64eFirmware | x86_64KernelCache | arm64eUserland24
deriving DecidableEq, Repr

namespace PointerFormat

/-- Formats in the order of their codes, which start at one. -/
def all : List PointerFormat :=
  [.arm64e, .ptr64, .ptr32, .ptr32Cache, .ptr32Firmware, .ptr64Offset, .arm64eKernel,
    .ptr64KernelCache, .arm64eUserland, .arm64eFirmware, .x86_64KernelCache, .arm64eUserland24]

def code : PointerFormat → Nat
  | .arm64e => 1 | .ptr64 => 2 | .ptr32 => 3 | .ptr32Cache => 4 | .ptr32Firmware => 5
  | .ptr64Offset => 6 | .arm64eKernel => 7 | .ptr64KernelCache => 8 | .arm64eUserland => 9
  | .arm64eFirmware => 10 | .x86_64KernelCache => 11 | .arm64eUserland24 => 12

def ofCode (n : Nat) : Except ImageError PointerFormat :=
  match all.find? fun f => f.code == n with
  | some f => .ok f
  | none => .error (.unknownPointerFormat n)

def name : PointerFormat → String
  | .arm64e => "Arm64e" | .ptr64 => "Ptr64" | .ptr32 => "Ptr32" | .ptr32Cache => "Ptr32Cache"
  | .ptr32Firmware => "Ptr32Firmware" | .ptr64Offset => "Ptr64Offset"
  | .arm64eKernel => "Arm64eKernel" | .ptr64KernelCache => "Ptr64KernelCache"
  | .arm64eUserland => "Arm64eUserland" | .arm64eFirmware => "Arm64eFirmware"
  | .x86_64KernelCache => "X86_64KernelCache" | .arm64eUserland24 => "Arm64eUserland24"

/-- Bytes that one unit of distance to the next slot stands for. -/
def stride : PointerFormat → Nat
  | .arm64e | .arm64eUserland | .arm64eUserland24 => 8
  | .x86_64KernelCache => 1
  | _ => 4

def is32Bit : PointerFormat → Bool
  | .ptr32 | .ptr32Cache | .ptr32Firmware => true
  | _ => false

def entrySize (f : PointerFormat) : Nat := if f.is32Bit then 4 else 8

/-- Whether plain targets count from the image's base. -/
def targetIsOffset : PointerFormat → Bool
  | .ptr64Offset | .ptr32Cache | .arm64eKernel | .arm64eUserland | .arm64eUserland24
  | .ptr64KernelCache | .x86_64KernelCache => true
  | _ => false

end PointerFormat

inductive SigningKey where
  | ia | ib | da | db
deriving DecidableEq, Repr

namespace SigningKey

def ofBits (n : Nat) : SigningKey :=
  match n % 4 with
  | 0 => .ia
  | 1 => .ib
  | 2 => .da
  | _ => .db

def name : SigningKey → String
  | .ia => "IA" | .ib => "IB" | .da => "DA" | .db => "DB"

end SigningKey

structure Signing where
  key : SigningKey
  diversity : UInt16
  /-- Whether the slot's address takes part. -/
  byAddress : Bool
deriving DecidableEq, Repr

inductive ChainEntry where
  | rebase (target : UInt64) (high8 : UInt8) (signing : Option Signing)
  /-- The import with this number, plus an addend. -/
  | bind (ordinal : UInt32) (addend : Int64) (signing : Option Signing)
deriving DecidableEq, Repr

def bitField (raw : UInt64) (low width : Nat) : Nat := (raw.toNat >>> low) % (1 <<< width)

def bitSet (raw : UInt64) (i : Nat) : Bool := bitField raw i 1 == 1

/-- The signed number that the lowest `width` bits of `n` stand for. -/
def signedField (n width : Nat) : Int := Int.bmod n (1 <<< width)

namespace ChainEntry

def signingAt (raw : UInt64) : Option Signing :=
  if bitSet raw 63 then
    some ⟨.ofBits (bitField raw 49 2), UInt16.ofNat (bitField raw 32 16), bitSet raw 48⟩
  else none

def plain (raw : UInt64) (width : Nat) : ChainEntry :=
  .rebase (UInt64.ofNat (bitField raw 0 width)) 0 none

def decodeArm64e (ordinalWidth : Nat) (raw : UInt64) : ChainEntry :=
  if bitSet raw 62 then
    let ordinal := UInt32.ofNat (bitField raw 0 ordinalWidth)
    if bitSet raw 63 then .bind ordinal 0 (signingAt raw)
    else .bind ordinal (Int64.ofInt (signedField (bitField raw 32 19) 19)) none
  else if bitSet raw 63 then .rebase (UInt64.ofNat (bitField raw 0 32)) 0 (signingAt raw)
  else .rebase (UInt64.ofNat (bitField raw 0 43)) (UInt8.ofNat (bitField raw 43 8)) none

/-- The entry in a slot, and the distance to the next slot in strides; zero ends the chain. -/
def decode (format : PointerFormat) (raw : UInt64) : ChainEntry × Nat :=
  match format with
  | .ptr64 | .ptr64Offset =>
    let entry := if bitSet raw 63
      then .bind (UInt32.ofNat (bitField raw 0 24)) (Int64.ofNat (bitField raw 24 8)) none
      else .rebase (UInt64.ofNat (bitField raw 0 36)) (UInt8.ofNat (bitField raw 36 8)) none
    (entry, bitField raw 51 12)
  | .ptr64KernelCache | .x86_64KernelCache =>
    (.rebase (UInt64.ofNat (bitField raw 0 30)) 0 (signingAt raw), bitField raw 51 12)
  | .ptr32 =>
    let entry := if bitSet raw 31
      then .bind (UInt32.ofNat (bitField raw 0 20)) (Int64.ofNat (bitField raw 20 6)) none
      else plain raw 26
    (entry, bitField raw 26 5)
  | .ptr32Cache => (plain raw 30, bitField raw 30 2)
  | .ptr32Firmware => (plain raw 26, bitField raw 26 6)
  | .arm64eUserland24 => (decodeArm64e 24 raw, bitField raw 51 11)
  | .arm64e | .arm64eKernel | .arm64eUserland | .arm64eFirmware =>
    (decodeArm64e 16 raw, bitField raw 51 11)

/-- The address that a rebase stands for in an image at its preferred base. Signed targets always
    count from the base; a plain target gets its top byte back. -/
def address? (format : PointerFormat) (base : UInt64) : ChainEntry → Option UInt64
  | .rebase target _ (some _) => some (target + base)
  | .rebase target high8 none =>
    some ((target + if format.targetIsOffset then base else 0) ||| high8.toUInt64 <<< 56)
  | .bind .. => none

end ChainEntry

structure BindTarget where
  symbol : String
  /-- Number of the library, or a small negative number for a special look-up. -/
  ordinal : Int32
  weak : Bool
  addend : Int64
deriving DecidableEq, Repr

/-- What a pointer slot holds once fixups are applied. -/
inductive SlotValue where
  | null
  | address (a : UInt64)
  | symbol (target : BindTarget)
deriving DecidableEq, Repr

namespace SlotValue

def address? : SlotValue → Option UInt64
  | .address a => some a
  | _ => none

def symbol? : SlotValue → Option BindTarget
  | .symbol target => some target
  | _ => none

def isNull : SlotValue → Bool
  | .null => true
  | _ => false

end SlotValue

end ObjcAtlas
