import TreeShell.Main
import TreeShell.Proofs.CanonicalPath
import TreeShell.Proofs.Observation
import TreeShell.Proofs.Travel
import TreeShell.Proofs.PointUpdate
import TreeShell.Proofs.Creation
import TreeShell.Proofs.Growth
import TreeShell.Proofs.Runs
import TreeShell.Proofs.Cursor
import TreeShell.Proofs.Resolution
import TreeShell.Proofs.Naming
import TreeShell.Proofs.LoadedTree
import TreeShell.Proofs.BuiltTree
import TreeShell.Proofs.SpelledText
import TreeShell.Proofs.SpelledValue
import TreeShell.Proofs.FieldOrder
import TreeShell.Proofs.ChildOrder
import TreeShell.Proofs.IndependentCreations
import TreeShell.Proofs.Listing
import TreeShell.Proofs.WrittenTree
import TreeShell.Proofs.WrittenDocument
import TreeShell.Proofs.Simulation
import TreeShell.Proofs.Words
import TreeShell.Proofs.LineGrammar
import TreeShell.Proofs.Rejoining
import TreeShell.Proofs.Locality
import TreeShell.Proofs.SingleReading
import TreeShell.Proofs.Lines
import TreeShell.Proofs.Base64
import TreeShell.Proofs.CharacterBytes
import TreeShell.Proofs.DamagedText
import TreeShell.Proofs.EncodedContent
import TreeShell.Proofs.Replay
import TreeShell.Proofs.PipedScript
import TreeShell.Proofs.Frame
import TreeShell.Proofs.Diagnostics
import TreeShell.Proofs.Copying
import TreeShell.Proofs.Operands
import TreeShell.Proofs.Touching
import TreeShell.Proofs.ExitStatus
import TreeShell.Proofs.ListedOperands
import TreeShell.Proofs.QuotedList
import TreeShell.Proofs.Navigation
import TreeShell.Proofs.LineStatus
