import RegisterMapping.Main
import RegisterMapping.OperandList
import RegisterMapping.Register.Order
import RegisterMapping.Register.Packing
import RegisterMapping.Proofs.Listing.Reader
import RegisterMapping.Proofs.Listing.Acceptance
import RegisterMapping.Proofs.Usage
import RegisterMapping.Proofs.Remap
import RegisterMapping.Proofs.Substitution
import RegisterMapping.Proofs.Listing.Scan
import RegisterMapping.Proofs.Listing.RoundTrip
import RegisterMapping.Proofs.Listing.Positions
import RegisterMapping.Proofs.Listing.Simulation
import RegisterMapping.Proofs.Listing.Agreement
import RegisterMapping.Proofs.Listing.Shift
import RegisterMapping.Proofs.Listing.Concatenation
import RegisterMapping.Proofs.Listing.Lexing
import RegisterMapping.Proofs.Spelling
import RegisterMapping.Proofs.Report
import RegisterMapping.Proofs.Report.Printing
import RegisterMapping.Proofs.Report.CleanListing
import RegisterMapping.Proofs.Report.Rereading
import RegisterMapping.Proofs.Report.Naming
import RegisterMapping.Proofs.Table
import RegisterMapping.Proofs.Usage.Runs
import RegisterMapping.Proofs.Remap.Runs
import RegisterMapping.Proofs.Substitution.Refusal
import RegisterMapping.Proofs.Substitution.Stopping
import RegisterMapping.Proofs.Register.Packing
import RegisterMapping.Proofs.Register.Order
import RegisterMapping.Proofs.Register.Syntax
import RegisterMapping.Proofs.Usage.Renaming
import RegisterMapping.Proofs.Listing.Parts
import RegisterMapping.Proofs.Listing.Bankless
import RegisterMapping.Proofs.Listing.Values
import RegisterMapping.Proofs.Listing.BankFaults
import RegisterMapping.Proofs.Utf8
import RegisterMapping.Proofs.CommandLine.Arguments
import RegisterMapping.Proofs.CommandLine.Outcome
import RegisterMapping.Proofs.Listing.LineOrder
import RegisterMapping.Proofs.Listing.Displacement
import RegisterMapping.Proofs.Listing.LineEndings
import RegisterMapping.Proofs.Listing.GivingUp
import RegisterMapping.Proofs.Listing.Accounting
import RegisterMapping.Proofs.Listing.Tiling
import RegisterMapping.Proofs.Listing.SentenceForms
import RegisterMapping.Proofs.Listing.SyntaxFaults
import RegisterMapping.Proofs.Listing.Pointers
import RegisterMapping.Proofs.Listing.Excerpts
import RegisterMapping.Proofs.Listing.Relexing
import RegisterMapping.Proofs.Listing.FirstAssignments
import RegisterMapping.Proofs.Instr.Operands
import RegisterMapping.Proofs.Substitution.Composition
import RegisterMapping.Proofs.Report.Annotations
import RegisterMapping.Proofs.Legibility
import RegisterMapping.Proofs.Bank
import RegisterMapping.Proofs.Substitution.Warnings
import RegisterMapping.Proofs.Listing.Numbers
