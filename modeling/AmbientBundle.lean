import AmbientBundle.Bundle.Sink
import AmbientBundle.Main
import AmbientBundle.Proofs.Designation
import AmbientBundle.Proofs.Diagnostics
import AmbientBundle.Proofs.Exclusion
import AmbientBundle.Proofs.LineEnds
import AmbientBundle.Proofs.Literals
import AmbientBundle.Proofs.References
import AmbientBundle.Proofs.Repetition
import AmbientBundle.Proofs.Reports
import AmbientBundle.Proofs.Splicing
import AmbientBundle.Proofs.CanonicalPaths
import AmbientBundle.Proofs.Offers
import AmbientBundle.Proofs.ByteOrderMark
import AmbientBundle.Proofs.DashedLines
import AmbientBundle.Proofs.Cleaning
import AmbientBundle.Proofs.Circularity
import AmbientBundle.Proofs.Indentation
import AmbientBundle.Proofs.Descent
import AmbientBundle.Proofs.GlobReading
import AmbientBundle.Proofs.Globs
import AmbientBundle.Proofs.FileWalks
import AmbientBundle.Proofs.Patterns
import AmbientBundle.Proofs.InputFiles
import AmbientBundle.Proofs.Relocation
import AmbientBundle.Proofs.Blocks
import AmbientBundle.Proofs.Foldings
import AmbientBundle.Proofs.Stems
import AmbientBundle.Proofs.ModifierRemoval
import AmbientBundle.Proofs.NormalForms
import AmbientBundle.Proofs.Escapes
import AmbientBundle.Proofs.Positions
import AmbientBundle.Proofs.KeptLines
