import EditBlocks.Main
import EditBlocks.Proofs.Atomicity
import EditBlocks.Proofs.Block.Attribute
import EditBlocks.Proofs.Block.Canonical
import EditBlocks.Proofs.Block.FirstError
import EditBlocks.Proofs.Block.Insertion
import EditBlocks.Proofs.Block.Parsing
import EditBlocks.Proofs.CheckedPath
import EditBlocks.Proofs.Exclusion
import EditBlocks.Proofs.Frame
import EditBlocks.Proofs.Legible
import EditBlocks.Proofs.LineEndings
import EditBlocks.Proofs.Patch
import EditBlocks.Proofs.Prompt
import EditBlocks.Proofs.Replacement
import EditBlocks.Proofs.Sources
import EditBlocks.Proofs.Splice
import EditBlocks.Proofs.Unlinked
