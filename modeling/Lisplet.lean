import Lisplet.Host.Stock
import Lisplet.Main
import Lisplet.Proofs.Acyclicity
import Lisplet.Proofs.Bisimulation
import Lisplet.Proofs.Brackets
import Lisplet.Proofs.Composition
import Lisplet.Proofs.Conservativity
import Lisplet.Proofs.Evaluation
import Lisplet.Proofs.Failures
import Lisplet.Proofs.Grammar
import Lisplet.Proofs.LibraryOrder
import Lisplet.Proofs.NamingRule
import Lisplet.Proofs.Ownership
import Lisplet.Proofs.ReadBack
import Lisplet.Proofs.Resolution
import Lisplet.Proofs.SafeAccess
import Lisplet.Proofs.Sorting
import Lisplet.Proofs.StraightLine
import Lisplet.Proofs.Unfolding
import Lisplet.Proofs.UnusedNames
import Lisplet.Proofs.Loops
import Lisplet.Proofs.DirectCalls
import Lisplet.Proofs.EqualityChains
import Lisplet.Proofs.Snapshots
import Lisplet.Proofs.LibraryCalls
import Lisplet.Proofs.Splitting
import Lisplet.Proofs.Slicing
import Lisplet.Proofs.Increments
import Lisplet.Proofs.LoopVariables
import Lisplet.Proofs.NumberReading
