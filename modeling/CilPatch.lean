import CilPatch.Proofs.BlobEntries
import CilPatch.Proofs.Bystanders
import CilPatch.Proofs.Classification
import CilPatch.Proofs.Consistency
import CilPatch.Proofs.DefaultReturn
import CilPatch.Proofs.FatHeaders
import CilPatch.Proofs.Headers
import CilPatch.Proofs.LastWrite
import CilPatch.Proofs.Lookup
import CilPatch.Proofs.Messages
import CilPatch.Proofs.NoFault
import CilPatch.Proofs.ReadBounds
import CilPatch.Proofs.ReturnTypes
import CilPatch.Proofs.SectionTables
import CilPatch.Proofs.StreamName
import CilPatch.Proofs.Transparency
