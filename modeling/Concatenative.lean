import Concatenative.Catalogue
import Concatenative.Main
import Concatenative.Proofs.DictWords
import Concatenative.Proofs.Division
import Concatenative.Proofs.Expression
import Concatenative.Proofs.Factorial
import Concatenative.Proofs.Interaction
import Concatenative.Proofs.Machine.Closing
import Concatenative.Proofs.Machine.Completion
import Concatenative.Proofs.Machine.Failure
import Concatenative.Proofs.Machine.Journal
import Concatenative.Proofs.Machine.Overlooking
import Concatenative.Proofs.Machine.Proper
import Concatenative.Proofs.Machine.Region
import Concatenative.Proofs.Machine.Signature
import Concatenative.Proofs.Machine.StraightLine
import Concatenative.Proofs.Machine.Succession
import Concatenative.Proofs.Rotation
import Concatenative.Proofs.Script
import Concatenative.Proofs.Source.Assembly
import Concatenative.Proofs.Source.Layout
import Concatenative.Proofs.Source.Tiling
import Concatenative.Proofs.Source.Culprit
import Concatenative.Proofs.Source.Excerpt
import Concatenative.Proofs.Source.Literals
import Concatenative.Proofs.Source.Offset
import Concatenative.Proofs.Template
import Concatenative.Proofs.Word.Agreement
