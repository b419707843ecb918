import WhitespaceAsm.Main
import WhitespaceAsm.Proofs.Accounting
import WhitespaceAsm.Proofs.Atomicity
import WhitespaceAsm.Proofs.BrokenLines
import WhitespaceAsm.Proofs.Disassembly
import WhitespaceAsm.Proofs.FileAssembly
import WhitespaceAsm.Proofs.Files
import WhitespaceAsm.Proofs.FullDevice
import WhitespaceAsm.Proofs.Independence
import WhitespaceAsm.Proofs.LineEndings
import WhitespaceAsm.Proofs.Listing
import WhitespaceAsm.Proofs.Lowering
import WhitespaceAsm.Proofs.Outlets
import WhitespaceAsm.Proofs.Pieces
import WhitespaceAsm.Proofs.Routes
import WhitespaceAsm.Proofs.Scanning
import WhitespaceAsm.Proofs.Sinks
import WhitespaceAsm.Proofs.Stages
import WhitespaceAsm.Proofs.Streams
import WhitespaceAsm.Proofs.Truncation
import WhitespaceAsm.Proofs.Verbosity
import WhitespaceAsm.Proofs.Numbers
import WhitespaceAsm.Proofs.Flaws
import WhitespaceAsm.Proofs.Labels
import WhitespaceAsm.Proofs.Literals
import WhitespaceAsm.Proofs.Layout
import WhitespaceAsm.Proofs.Trimming
