import TemplateCheck.Value.Equality
import TemplateCheck.Proofs.Termination.Circular
import TemplateCheck.Proofs.Orders
import TemplateCheck.Proofs.Duties.Strength
import TemplateCheck.Proofs.Duties.Omit
import TemplateCheck.Proofs.Termination.Restricted
import TemplateCheck.Proofs.Concatenation.Characters
import TemplateCheck.Proofs.Concatenation.References
import TemplateCheck.Proofs.Indirection
import TemplateCheck.Proofs.SelfReference.Origin
import TemplateCheck.Proofs.Bases
import TemplateCheck.Proofs.Spotless.Check
import TemplateCheck.Proofs.Slots.Refolding
import TemplateCheck.Proofs.Indexing
import TemplateCheck.Proofs.Termination.Splice
import TemplateCheck.Proofs.Signatures
import TemplateCheck.Proofs.Paths
import TemplateCheck.Proofs.Counters
