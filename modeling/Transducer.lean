import Transducer.Text.Blank
import Transducer.Literal
import Transducer.Ordered
import Transducer.Decimal.Reading
import Transducer.Json.Text
import Transducer.Json.Codec
import Transducer.Range
import Transducer.Kind
import Transducer.Failure
import Transducer.History.Json
import Transducer.Machine
import Transducer.Execution
import Transducer.Run
import Transducer.Blueprint
import Transducer.Script.Basic
import Transducer.Script.Probes
import Transducer.Demo.Counter
import Transducer.Demo.Lexer
import Transducer.Main
import Transducer.Proofs.Laziness
import Transducer.Proofs.Agreement
import Transducer.Proofs.Blueprints
import Transducer.Proofs.Histories
import Transducer.Proofs.Endings
import Transducer.Proofs.Duplicates
import Transducer.Proofs.Resumption
import Transducer.Proofs.Extensions
import Transducer.Proofs.Reorderings
import Transducer.Proofs.Declarations
import Transducer.Proofs.Coverage
import Transducer.Proofs.Outputs
import Transducer.Proofs.Events
import Transducer.Proofs.Scanner
import Transducer.Proofs.Readback
import Transducer.Proofs.Renamings
import Transducer.Proofs.Redundancies
import Transducer.Proofs.Failures
import Transducer.Proofs.Rejections
import Transducer.Proofs.Repetitions
import Transducer.Proofs.Patterns
import Transducer.Proofs.LabelTests
import Transducer.Proofs.Termination
import Transducer.Proofs.Acceptance
import Transducer.Proofs.Insertions
import Transducer.Proofs.Drafts
import Transducer.Proofs.Pieces
import Transducer.Proofs.Copies
import Transducer.Proofs.LeadingOnes
