import RecordLayout.Declaration.Builder
import RecordLayout.Main
import RecordLayout.Persistence
import RecordLayout.Proofs.Analysis.Bases
import RecordLayout.Proofs.Analysis.Degradation
import RecordLayout.Proofs.Analysis.Depth
import RecordLayout.Proofs.Analysis.Locality
import RecordLayout.Proofs.Cli.Agreement
import RecordLayout.Proofs.Layout.Wellformed
import RecordLayout.Proofs.Program.Lookups
import RecordLayout.Proofs.Session.Arrangement
import RecordLayout.Proofs.Session.Copies
import RecordLayout.Proofs.Analysis.Flags
import RecordLayout.Proofs.Session.Flags
import RecordLayout.Proofs.Session.Selection
import RecordLayout.Proofs.Dump.Spelling
import RecordLayout.Proofs.Analysis.Reuse
import RecordLayout.Proofs.Analysis.Truncation
import RecordLayout.Proofs.Layout.History
import RecordLayout.Proofs.Persistence
