import LosslessYaml.Main
import LosslessYaml.Proofs.Cuts.Stream
import LosslessYaml.Proofs.DocumentMarks.Stream
import LosslessYaml.Proofs.File.RoundTrip
import LosslessYaml.Proofs.Indentation.Margins
import LosslessYaml.Proofs.LineEnds.Rewriting
import LosslessYaml.Proofs.Path.Failures
import LosslessYaml.Proofs.Path.Words
import LosslessYaml.Proofs.Program.InPlace
import LosslessYaml.Proofs.ReadBack.Accepted
import LosslessYaml.Proofs.Recipe.Visible
import LosslessYaml.Proofs.Visit.Leaves
import LosslessYaml.Proofs.Visit.Preorder
import LosslessYaml.Proofs.WellFormed.Runs
