import Reckoner.Main
import Reckoner.Proofs.Continuations
import Reckoner.Proofs.Interleaving
import Reckoner.Proofs.Records
import Reckoner.Proofs.Refusals
import Reckoner.Proofs.WrittenValues
import Reckoner.Proofs.Nonterminals
import Reckoner.Proofs.Verbosity
import Reckoner.Proofs.Aftermath
import Reckoner.Proofs.Relocation
import Reckoner.Proofs.Sums
import Reckoner.Proofs.Blanks
import Reckoner.Proofs.Dumps
import Reckoner.Proofs.Products
import Reckoner.Proofs.Endings
import Reckoner.Proofs.Denominators
import Reckoner.Proofs.Reorderings
import Reckoner.Proofs.Diagnostics
import Reckoner.Proofs.Arguments
import Reckoner.Proofs.Limits
import Reckoner.Proofs.Allowances
