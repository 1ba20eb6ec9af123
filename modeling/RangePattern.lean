import RangePattern.Cursor.Items
import RangePattern.Description
import RangePattern.Report
import RangePattern.Session
import RangePattern.Proofs.Terms
import RangePattern.Proofs.Stations
import RangePattern.Proofs.Language
import RangePattern.Proofs.Expansion
import RangePattern.Proofs.Characters
import RangePattern.Proofs.Limits
import RangePattern.Proofs.Slots
import RangePattern.Proofs.Supply
import RangePattern.Proofs.Rows
import RangePattern.Proofs.Consumption
import RangePattern.Proofs.Stages
import RangePattern.Proofs.Log
import RangePattern.Proofs.Canonical
import RangePattern.Proofs.Spelling
import RangePattern.Proofs.Messages
import RangePattern.Proofs.Records
import RangePattern.Proofs.Lineage
import RangePattern.Proofs.Misreading
import RangePattern.Proofs.Joining
import RangePattern.Proofs.DotRuns
import RangePattern.Proofs.Places
import RangePattern.Proofs.RoundTrip
import RangePattern.Proofs.Sorting
import RangePattern.Proofs.Ends
import RangePattern.Proofs.Respelling
import RangePattern.Proofs.Striding
import RangePattern.Proofs.Reversal
import RangePattern.Proofs.Counting
