import Workflow.Main
import Workflow.Proofs.Ordering
import Workflow.Proofs.Soundness
import Workflow.Proofs.Traces
import Workflow.Proofs.Codecs
import Workflow.Proofs.Storage
import Workflow.Proofs.Departures
import Workflow.Proofs.FlowKeys
import Workflow.Proofs.Regions
import Workflow.Proofs.Recursion
import Workflow.Proofs.Report
import Workflow.Proofs.SharedOrder
import Workflow.Proofs.Tokens
import Workflow.Proofs.Scanning
import Workflow.Proofs.Reading
import Workflow.Proofs.Records
import Workflow.Proofs.StepText
import Workflow.Proofs.Arrivals
import Workflow.Proofs.Changes
import Workflow.Proofs.Erasure
import Workflow.Proofs.Tails
import Workflow.Proofs.Renaming
import Workflow.Proofs.NetText
import Workflow.Proofs.Truncation
import Workflow.Proofs.Extensions
import Workflow.Proofs.Replacement
import Workflow.Proofs.Recoding
import Workflow.Proofs.Spellings
import Workflow.Proofs.Layouts
import Workflow.Proofs.Listings
import Workflow.Proofs.Grammar
import Workflow.Proofs.Form
import Workflow.Proofs.Acceptance
import Workflow.Proofs.MemberOrder
import Workflow.Proofs.Rearrangement
import Workflow.Proofs.Calls
import Workflow.Proofs.Damage
import Workflow.Proofs.Versions
import Workflow.Proofs.Unreported
