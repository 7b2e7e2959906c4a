import Runbook.Main
import Runbook.Proofs.Block.Pieces
import Runbook.Proofs.CommandLine.Exec
import Runbook.Proofs.CommandLine.Flatten
import Runbook.Proofs.History
import Runbook.Proofs.Include.Attribution
import Runbook.Proofs.Include.Cycles
import Runbook.Proofs.Include.Numbered
import Runbook.Proofs.Include.Stack
import Runbook.Proofs.Marker
import Runbook.Proofs.Printed
import Runbook.Proofs.Recipe.Block
import Runbook.Proofs.Recipe.Declaration
import Runbook.Proofs.Recipe.Guarantee
import Runbook.Proofs.Recipe.Layout
import Runbook.Proofs.Recipe.Origin
import Runbook.Proofs.Step.Environment
import Runbook.Proofs.Step.Frame
import Runbook.Proofs.Step.Leniency
import Runbook.Proofs.Step.Scripts
import Runbook.Proofs.Variables.Cycles
import Runbook.Proofs.Variables.Overrides
import Runbook.Proofs.Variables.Simultaneous
import Runbook.Proofs.Words.Unclosed
