import ObjcAtlas.Extraction.Image
import ObjcAtlas.Proofs.Survey.Record

set_option autoImplicit false

namespace ObjcAtlas

namespace Survey

def imageInfo (s : Slice) : Survey (Option ImageInfo) := do
  let some found := RuntimeSection.imageInfo.find? s | return none
  read found.address "image info" do
    return ⟨← s.u32At found.address, ← s.u32At (found.address + 4)⟩

def slots (s : Slice) (t : Section) : List UInt64 :=
  (List.range (t.size.toNat / s.bits.pointerSize)).map fun i =>
    t.address + s.bits.words (UInt64.ofNat i)

def recordAddresses (s : Slice) (t : RuntimeSection) : Survey (List UInt64) :=
  match t.find? s with
  | some found => collect (fun slot => follow s slot t.name) (slots s found)
  | none => return []

def image (s : Slice) : Survey Findings := do
  let info ← imageInfo s
  let classes ← collect (classAt s) (← recordAddresses s .classes)
  let hasClassProperties := info.any ImageInfo.hasCategoryClassProperties
  let categories ←
    collect (categoryAt s hasClassProperties) (← recordAddresses s .categories)
  let protocols ← collect (protocolAt s) (← recordAddresses s .protocols)
  return { imageInfo := info, classes, categories, protocols }

end Survey

def Slice.survey (s : Slice) : Findings × List Event :=
  let (findings, notes) := Survey.image s {}
  (findings, notes.log.toList)

end ObjcAtlas
