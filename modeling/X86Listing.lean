import X86Listing.JsonLines
import X86Listing.Sweep.Chunked
import X86Listing.Proofs.Session
import X86Listing.Proofs.Sweep.Run
import X86Listing.Proofs.Sweep.Tiling
import X86Listing.Proofs.Sweep.Outcome
import X86Listing.Proofs.Sweep.Partition
import X86Listing.Proofs.Sweep.Window
import X86Listing.Proofs.Sweep.Chunks
import X86Listing.Proofs.Sweep.Agreement
import X86Listing.Proofs.Flag
import X86Listing.Proofs.Engine.FlagWord
import X86Listing.Proofs.Engine.Targets
import X86Listing.Proofs.Instruction.Operands
import X86Listing.Proofs.Instruction.RoundTrip
import X86Listing.Proofs.Json.Line
import X86Listing.Proofs.JsonLines
import X86Listing.Proofs.Instruction.Placement
import X86Listing.Proofs.Sweep.Translation
import X86Listing.Proofs.Sweep.Merged
import X86Listing.Proofs.Sweep.Resumption
import X86Listing.Proofs.Sweep.Overlap
import X86Listing.Proofs.Engine.FlagWrites
import X86Listing.Proofs.Engine.TargetWidth
import X86Listing.Proofs.Instruction.Resolution
import X86Listing.Proofs.Raw.HiddenUses
import X86Listing.Proofs.Sweep.ChunkOrder
import X86Listing.Proofs.Sweep.Restart
import X86Listing.Proofs.Text.Printable
import X86Listing.Proofs.Json.Locality
import X86Listing.Proofs.Json.Fuel
import X86Listing.Proofs.Instruction.Blanks
import X86Listing.Proofs.Traversal
import X86Listing.Proofs.JsonLines.Joined
import X86Listing.Proofs.JsonLines.FullSink
import X86Listing.Proofs.Engine.EncodedField
import X86Listing.Proofs.Flag.Classes
import X86Listing.Proofs.Sweep.Turns
import X86Listing.Proofs.Sink
import X86Listing.Proofs.Instruction.NameKeys
