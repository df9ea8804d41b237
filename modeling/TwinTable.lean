import TwinTable.Dictionary.Cursor
import TwinTable.Dictionary.Entries
import TwinTable.Dictionary.Pick
import TwinTable.Dictionary.Report
import TwinTable.Dictionary.Walk
import TwinTable.Hash.Sip
import TwinTable.Service.Loopback
import TwinTable.Service.Options
import TwinTable.Service.Transcript
import TwinTable.Text.Numeral
import TwinTable.Text.Quoted
import TwinTable.Proofs.Dictionary.Agreement
import TwinTable.Proofs.Dictionary.ChainReports
import TwinTable.Proofs.Dictionary.Confluence
import TwinTable.Proofs.Dictionary.FairDraws
import TwinTable.Proofs.Dictionary.Growth
import TwinTable.Proofs.Dictionary.HeldLayout
import TwinTable.Proofs.Dictionary.LinkedScans
import TwinTable.Proofs.Dictionary.NewSizes
import TwinTable.Proofs.Dictionary.Ownership
import TwinTable.Proofs.Dictionary.Progress
import TwinTable.Proofs.Dictionary.QuickDraws
import TwinTable.Proofs.Dictionary.Samples
import TwinTable.Proofs.Dictionary.ScanCompleteness
import TwinTable.Proofs.Dictionary.SingleChanges
import TwinTable.Proofs.Dictionary.Spelling
import TwinTable.Proofs.Dictionary.UnsafeWalks
import TwinTable.Proofs.Dictionary.WholeWalk
import TwinTable.Proofs.Service.Endings
import TwinTable.Proofs.Service.Overrides
import TwinTable.Proofs.Service.PageCalls
import TwinTable.Proofs.Service.Pages
import TwinTable.Proofs.Service.Phases
import TwinTable.Proofs.Service.Replies
import TwinTable.Proofs.Service.Upkeep
import TwinTable.Proofs.Wire.Arrival
import TwinTable.Proofs.Wire.ResponseStreams
