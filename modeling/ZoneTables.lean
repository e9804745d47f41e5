import ZoneTables.Main
import ZoneTables.Proofs.Compilation.Handover
import ZoneTables.Proofs.Compilation.Order
import ZoneTables.Proofs.Compilation.Validation
import ZoneTables.Proofs.Source.Groups
import ZoneTables.Proofs.Source.Links
import ZoneTables.Proofs.Source.Lines
import ZoneTables.Proofs.Source.Acceptance
import ZoneTables.Proofs.Compilation.Several
import ZoneTables.Proofs.Batch.Accounting
import ZoneTables.Proofs.Table.Tail
import ZoneTables.Proofs.Table.FallBack
import ZoneTables.Proofs.Compilation.Tail
import ZoneTables.Proofs.Compilation.Windows
import ZoneTables.Proofs.Compilation.Start
import ZoneTables.Proofs.Calendar.DaySpec
import ZoneTables.Proofs.Timeline.NormalForm
import ZoneTables.Proofs.Source.Dates
import ZoneTables.Proofs.Compilation.NormalForm
import ZoneTables.Proofs.Compilation.Provenance
import ZoneTables.Proofs.Compilation.Failures
import ZoneTables.Proofs.Tzif.Order
import ZoneTables.Proofs.Compilation.Years
import ZoneTables.Proofs.Compilation.Rearrangement
import ZoneTables.Proofs.Batch.Step
import ZoneTables.Proofs.Batch.Validation
import ZoneTables.Proofs.Batch.Listings
import ZoneTables.Proofs.Batch.Remarks
import ZoneTables.Proofs.Timeline.Order
import ZoneTables.Proofs.Timeline.WallDate
import ZoneTables.Proofs.Timeline.Canonical
import ZoneTables.Proofs.Timeline.Trimming
import ZoneTables.Proofs.Timeline.Matching
import ZoneTables.Proofs.Base60.FixedPoint
import ZoneTables.Proofs.Source.Times
import ZoneTables.Proofs.Compilation.Minutes
