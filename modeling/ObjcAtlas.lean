import ObjcAtlas.Encoding.Json
import ObjcAtlas.Encoding.Memo
import ObjcAtlas.Encoding.OfJson
import ObjcAtlas.Fixup.Draft
import ObjcAtlas.Fixup.Json
import ObjcAtlas.Image.Draft
import ObjcAtlas.Image.Json
import ObjcAtlas.Image.Slice
import ObjcAtlas.Image.Universal
import ObjcAtlas.Main
import ObjcAtlas.Metadata.Json
import ObjcAtlas.Proofs.Survey.Report
import ObjcAtlas.Proofs.Encoding.Canonical
import ObjcAtlas.Proofs.Encoding.Reads
import ObjcAtlas.Proofs.Encoding.RoundTrip
import ObjcAtlas.Proofs.Encoding.Takes
import ObjcAtlas.Proofs.Fixup.Visit
import ObjcAtlas.Proofs.Fixup.Walk
import ObjcAtlas.Proofs.Survey.Methods
import ObjcAtlas.Proofs.Survey.ExtendedTypes
import ObjcAtlas.Proofs.Image.Holds
import ObjcAtlas.Proofs.Image.Commands
import ObjcAtlas.Proofs.Image.Build
import ObjcAtlas.Proofs.Fixup.Slots
import ObjcAtlas.Proofs.Fixup.Blob
import ObjcAtlas.Proofs.Fixup.Page
import ObjcAtlas.Proofs.Encoding.Accepted
import ObjcAtlas.Proofs.Metadata.Slide
import ObjcAtlas.Proofs.Survey.Records
import ObjcAtlas.Proofs.Survey.Footprint
import ObjcAtlas.Proofs.Survey.Frame
import ObjcAtlas.Proofs.Metadata.Encrypted
import ObjcAtlas.Proofs.Fixup.BindMachine
import ObjcAtlas.Proofs.Image.Thin
import ObjcAtlas.Proofs.Metadata.Universal
import ObjcAtlas.Proofs.Metadata.Undecoded
import ObjcAtlas.Proofs.Image.Tiling
import ObjcAtlas.Proofs.Encoding.Locality
import ObjcAtlas.Proofs.Encoding.Stability
import ObjcAtlas.Proofs.Survey.Degraded
import ObjcAtlas.Proofs.Extraction.Degraded
import ObjcAtlas.Proofs.Extraction.Transparent
import ObjcAtlas.Proofs.Extraction.MethodLists
import ObjcAtlas.Proofs.Metadata.Records
import ObjcAtlas.Proofs.Metadata.ListSections
import ObjcAtlas.Proofs.Image.Translation
import ObjcAtlas.Proofs.Fixup.Located
import ObjcAtlas.Proofs.Fixup.Repeat
import ObjcAtlas.Proofs.Report.Fixups
import ObjcAtlas.Proofs.Fixup.ListWalk
import ObjcAtlas.Proofs.Encoding.Signature
import ObjcAtlas.Proofs.Fixup.Revisit
import ObjcAtlas.Proofs.Fixup.StepCount
import ObjcAtlas.Proofs.Fixup.SymbolText
import ObjcAtlas.Proofs.Fixup.Whole
import ObjcAtlas.Proofs.Image.Address
import ObjcAtlas.Proofs.Word.Load
import ObjcAtlas.Proofs.Word.Extract
import ObjcAtlas.Proofs.Fixup.PointerBits
import ObjcAtlas.Proofs.Fixup.Kept
import ObjcAtlas.Proofs.Encoding.Attributes
import ObjcAtlas.Proofs.Image.Leb128Exact
import ObjcAtlas.Proofs.Image.Leb128Signed
import ObjcAtlas.Proofs.Metadata.Counted
import ObjcAtlas.Proofs.Parser.Step
import ObjcAtlas.Proofs.Parser.Stretch
import ObjcAtlas.Proofs.Parser.Type
import ObjcAtlas.Proofs.Parser.Calls
