import Rulebook.Log.Call
import Rulebook.Main
import Rulebook.Proofs.Rule.RoundTrip
import Rulebook.Proofs.Rule.Totality
import Rulebook.Rule.Print
import Rulebook.Service.Serve
import Rulebook.Text.Basic
import Rulebook.Proofs.Rule.Storage
import Rulebook.Proofs.Rule.Damage
import Rulebook.Proofs.Rule.Offence
import Rulebook.Proofs.Request.Body
import Rulebook.Proofs.Service.Changes
import Rulebook.Proofs.Service.Evaluation
import Rulebook.Proofs.Rule.Tiling
import Rulebook.Proofs.Rule.Safety
import Rulebook.Proofs.Service.Showing
import Rulebook.Proofs.Service.Exchange
import Rulebook.Proofs.Service.Lifecycle
import Rulebook.Proofs.Rule.Lines
import Rulebook.Proofs.Service.Correlation
import Rulebook.Proofs.Service.Failures
import Rulebook.Proofs.Command.Agreement
import Rulebook.Proofs.Rule.Composition
import Rulebook.Proofs.Rule.Quotation
import Rulebook.Proofs.Rule.Printing
import Rulebook.Proofs.Rule.Holes
import Rulebook.Proofs.Rule.Lookups
import Rulebook.Proofs.Rule.Literal
import Rulebook.Proofs.Command.Display
import Rulebook.Proofs.Service.Paging
import Rulebook.Proofs.Rule.Stacks
import Rulebook.Proofs.Json.Extent
import Rulebook.Proofs.Rule.Comparators
import Rulebook.Proofs.Rule.Numerals
import Rulebook.Proofs.Settings.Origins
import Rulebook.Proofs.Rule.Delivery
