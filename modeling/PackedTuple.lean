import PackedTuple.Buffer.Text
import PackedTuple.Encoding.Image
import PackedTuple.Main
import PackedTuple.View.Canonical
import PackedTuple.View.Walk
import PackedTuple.Proofs.Encoding.Fields
import PackedTuple.Proofs.Buffer.Placement
import PackedTuple.Proofs.Schema.Columns
import PackedTuple.Proofs.Schema.Ordering
import PackedTuple.Proofs.Layout.Geometry
import PackedTuple.Proofs.Encoding.Draft
import PackedTuple.Proofs.Build.Admission
import PackedTuple.Proofs.Build.Runs
import PackedTuple.Proofs.Encoding.Images
import PackedTuple.Proofs.Build.Consistency
import PackedTuple.Proofs.Build.Outcome
import PackedTuple.Proofs.Build.Agreement
import PackedTuple.Proofs.Build.Sizing
import PackedTuple.Proofs.Build.Presizing
import PackedTuple.Proofs.Build.Refusal
import PackedTuple.Proofs.View.Navigation
import PackedTuple.Proofs.View.Reading
import PackedTuple.Proofs.View.Opening
import PackedTuple.Proofs.View.RoundTrip
import PackedTuple.Proofs.View.Layout
import PackedTuple.Proofs.View.Rebuilding
import PackedTuple.Proofs.View.Canonical
import PackedTuple.Proofs.View.Confinement
import PackedTuple.Proofs.View.Framing
import PackedTuple.Proofs.View.Delimiting
import PackedTuple.Proofs.Build.Transcripts
import PackedTuple.Proofs.View.Hashing
import PackedTuple.Proofs.Buffer.Allocation
import PackedTuple.Proofs.Buffer.History
import PackedTuple.Proofs.Buffer.Contents
import PackedTuple.Proofs.Buffer.Growth
import PackedTuple.Proofs.Buffer.Numbers
import PackedTuple.Proofs.Build.Buffering
import PackedTuple.Proofs.Build.Patches
import PackedTuple.Proofs.Text.Spelling
import PackedTuple.Proofs.Build.Limits
import PackedTuple.Proofs.Build.Counts
import PackedTuple.Proofs.View.Walking
import PackedTuple.Proofs.Build.Respelling
import PackedTuple.Proofs.Build.Landing
import PackedTuple.Proofs.Build.Bitmasks
