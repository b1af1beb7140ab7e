import SignedFlash.Main
import SignedFlash.Proofs.Binding
import SignedFlash.Proofs.Boards
import SignedFlash.Proofs.Checked.ScanCheck
import SignedFlash.Proofs.Checked.Steps
import SignedFlash.Proofs.Command
import SignedFlash.Proofs.Diagnostics
import SignedFlash.Proofs.DumpedExponents
import SignedFlash.Proofs.Grammar
import SignedFlash.Proofs.KeyIds
import SignedFlash.Proofs.Locality
import SignedFlash.Proofs.Products
import SignedFlash.Proofs.Randomness
import SignedFlash.Proofs.Reporting
import SignedFlash.Proofs.Searching
import SignedFlash.Proofs.Secrecy
import SignedFlash.Proofs.Selections
import SignedFlash.Proofs.Skipping
import SignedFlash.Proofs.StrictKeys
