import ClassFile.Main
import ClassFile.Proofs.Listing
import ClassFile.Proofs.Success
import ClassFile.Proofs.Outcome
import ClassFile.Proofs.Lockstep
import ClassFile.Proofs.Framing
import ClassFile.Proofs.Pool.Validated
import ClassFile.Proofs.Verification.Entry
import ClassFile.Proofs.Verification.Branches
import ClassFile.Proofs.Verification.Effects
import ClassFile.Proofs.Verification.Accepted
import ClassFile.Proofs.Verification.Boundaries
import ClassFile.Proofs.Verification.Closed
import ClassFile.Proofs.Verification.Agreement
import ClassFile.Proofs.Verification.Cells
import ClassFile.Proofs.Verification.Handlers
import ClassFile.Proofs.Verification.Loops
import ClassFile.Proofs.Verification.Addresses
import ClassFile.Proofs.Verification.Tracking
import ClassFile.Proofs.Verification.Foreseen
import ClassFile.Proofs.Verification.Exchange
import ClassFile.Proofs.Verification.Ledger
import ClassFile.Proofs.Verification.SlotMachine
import ClassFile.Proofs.Descriptor.Names
import ClassFile.Proofs.Descriptor.Field
import ClassFile.Proofs.Descriptor.Method
import ClassFile.Proofs.Verification.Performing
import ClassFile.Proofs.Verification.Steps
import ClassFile.Proofs.Verification.Depths
import ClassFile.Proofs.Instruction.Encoding
import ClassFile.Proofs.Instruction.Decoding
import ClassFile.Proofs.Instruction.Tiling
import ClassFile.Proofs.Code.Foreseen
import ClassFile.Proofs.Declaration.Foreseen
import ClassFile.Proofs.Declaration.Decoded
import ClassFile.Proofs.Declaration.Framed
import ClassFile.Proofs.Parsing
import ClassFile.Proofs.Simulation
import ClassFile.Proofs.Pool.Insertion
import ClassFile.Proofs.Verification.Relaxed.Stack
import ClassFile.Proofs.Verification.Relaxed.Locals
import ClassFile.Proofs.Verification.Relaxed.Performing
import ClassFile.Proofs.Verification.Relaxed.Pass
import ClassFile.Proofs.Code.Relaxed
import ClassFile.Proofs.Attribute.Table
import ClassFile.Proofs.Attribute.Placeless
import ClassFile.Proofs.Attribute.Order
import ClassFile.Proofs.Attribute.Placing
import ClassFile.Proofs.Code.Contents
import ClassFile.Proofs.Attribute.Rearranged
import ClassFile.Proofs.Code.Debugging
import ClassFile.Proofs.Text.ModifiedUtf8
import ClassFile.Proofs.Consuming
import ClassFile.Proofs.Pool.Encoding
import ClassFile.Proofs.SideBySide
import ClassFile.Proofs.Declaration.Layout
import ClassFile.Proofs.Declaration.Members
import ClassFile.Proofs.Declaration.Spelled
import ClassFile.Proofs.Declaration.MethodCode
import ClassFile.Proofs.Declaration.Keeping
import ClassFile.Proofs.Declaration.Lookup
import ClassFile.Proofs.Pool.Lawful
import ClassFile.Proofs.Instruction.Lawful
import ClassFile.Proofs.Declaration.Lawful
import ClassFile.Proofs.Survey.Path
import ClassFile.Proofs.Survey.Workers
import ClassFile.Proofs.Survey.Accounts
import ClassFile.Proofs.Survey.Order
import ClassFile.Proofs.Verification.Recorded
import ClassFile.Proofs.Spelling
import ClassFile.Proofs.Code.FrameForms
import ClassFile.Proofs.Code.Frames
import ClassFile.Proofs.Verification.InitialFrame
import ClassFile.Proofs.Verification.Stores
import ClassFile.Proofs.Verification.Joins
import ClassFile.Proofs.Verification.Arrivals
import ClassFile.Proofs.Text.Codec
import ClassFile.Proofs.Verification.LocalVariables
import ClassFile.Proofs.Code.Signatures
import ClassFile.Proofs.Verification.FailedShuffles
import ClassFile.Proofs.Blaming
import ClassFile.Proofs.Verification.Blaming
import ClassFile.Proofs.Code.Blaming
import ClassFile.Proofs.Verification.Leftover
import ClassFile.Proofs.Verification.Unreached
import ClassFile.Proofs.Code.Leftover
import ClassFile.Proofs.Verification.Bindings
import ClassFile.Proofs.Code.Lines
import ClassFile.Proofs.Windows
import ClassFile.Proofs.Words
import ClassFile.Proofs.Verification.Counters
import ClassFile.Proofs.Overflow
