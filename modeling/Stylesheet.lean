import Stylesheet.Main
import Stylesheet.Proofs.Braces
import Stylesheet.Proofs.DefaultOutput
import Stylesheet.Proofs.Dumping
import Stylesheet.Proofs.Emission
import Stylesheet.Proofs.Exactness
import Stylesheet.Proofs.Frames
import Stylesheet.Proofs.Idempotence
import Stylesheet.Proofs.Inlining
import Stylesheet.Proofs.Isolation
import Stylesheet.Proofs.Progress
import Stylesheet.Proofs.Recovery
import Stylesheet.Proofs.RemarkOrder
import Stylesheet.Proofs.Removal
import Stylesheet.Proofs.Surfacing
import Stylesheet.Proofs.SyntaxErrors
import Stylesheet.Proofs.Trimming
import Stylesheet.Proofs.Usage
