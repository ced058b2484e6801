import ObjcAtlas.Image.Reader

set_option autoImplicit false

namespace ObjcAtlas

inductive Architecture where
  | x86_64 | x86 | arm64 | arm64e | arm64_32 | arm | powerPc | powerPc64
  | unknown (cpuType : UInt32)
deriving DecidableEq, Repr

namespace Cpu

def x86 : UInt32 := 7
def x86_64 : UInt32 := 0x01000007
def arm : UInt32 := 12
def arm64 : UInt32 := 0x0100000C
def arm64_32 : UInt32 := 0x0200000C
def powerPc : UInt32 := 18
def powerPc64 : UInt32 := 0x01000012

end Cpu

/-- A subtype without its capability bits. -/
def plainSubtype (subtype : UInt32) : UInt32 := subtype &&& 0x00FFFFFF

namespace Architecture

def ofCpu (cpuType subtype : UInt32) : Architecture :=
  if cpuType = Cpu.x86_64 then .x86_64
  else if cpuType = Cpu.x86 then .x86
  else if cpuType = Cpu.arm64 then if plainSubtype subtype = 2 then .arm64e else .arm64
  else if cpuType = Cpu.arm64_32 then .arm64_32
  else if cpuType = Cpu.arm then .arm
  else if cpuType = Cpu.powerPc then .powerPc
  else if cpuType = Cpu.powerPc64 then .powerPc64
  else .unknown cpuType

/-- Bytes of a pointer; eight when the processor is unknown. -/
def pointerSize : Architecture → Nat
  | .x86 | .arm | .arm64_32 | .powerPc => 4
  | .x86_64 | .arm64 | .arm64e | .powerPc64 | .unknown _ => 8

def is64Bit (a : Architecture) : Bool := a.pointerSize == 8

def name : Architecture → String
  | .x86_64 => "x86_64" | .x86 => "i386" | .arm64 => "arm64" | .arm64e => "arm64e"
  | .arm64_32 => "arm64_32" | .arm => "arm" | .powerPc => "ppc" | .powerPc64 => "ppc64"
  | .unknown _ => "unknown"

end Architecture

structure ArchSelector where
  cpuType : UInt32
  /-- Subtype without capability bits; any when absent. -/
  subtype : Option UInt32 := none
deriving DecidableEq, Repr

namespace ArchSelector

def named? : String → Option ArchSelector
  | "x86_64" => some { cpuType := Cpu.x86_64 }
  | "i386" | "x86" => some { cpuType := Cpu.x86 }
  | "arm64" => some { cpuType := Cpu.arm64, subtype := some 0 }
  | "arm64e" => some { cpuType := Cpu.arm64, subtype := some 2 }
  | "arm64_32" => some { cpuType := Cpu.arm64_32 }
  | "arm" => some { cpuType := Cpu.arm }
  | "armv7" => some { cpuType := Cpu.arm, subtype := some 9 }
  | "armv7s" => some { cpuType := Cpu.arm, subtype := some 11 }
  | "ppc" => some { cpuType := Cpu.powerPc }
  | "ppc64" => some { cpuType := Cpu.powerPc64 }
  | _ => none

def accepts (s : ArchSelector) (cpuType subtype : UInt32) : Bool :=
  s.cpuType == cpuType && match s.subtype with
    | some wanted => plainSubtype subtype == wanted
    | none => true

end ArchSelector

end ObjcAtlas
