import BisayaPlus.Main
import BisayaPlus.NodeFamily
import BisayaPlus.Proofs.ProgramGrammar
import BisayaPlus.Proofs.Budget
import BisayaPlus.Proofs.Recovery
import BisayaPlus.Proofs.Changes
import BisayaPlus.Proofs.Scoping
import BisayaPlus.Proofs.Reached
import BisayaPlus.Proofs.TypedStore
import BisayaPlus.Proofs.Blame
import BisayaPlus.Proofs.Jumps
import BisayaPlus.Proofs.Lossless
import BisayaPlus.Proofs.ReportOrder
import BisayaPlus.Proofs.Observers
import BisayaPlus.Proofs.Parts
import BisayaPlus.Proofs.Traces
import BisayaPlus.Proofs.Requests
import BisayaPlus.Proofs.FailingPrints
import BisayaPlus.Proofs.EntryPoints
import BisayaPlus.Proofs.Sessions
import BisayaPlus.Proofs.Respelling
import BisayaPlus.Proofs.ScopeStack
import BisayaPlus.Proofs.Targets
import BisayaPlus.Proofs.Unambiguous
import BisayaPlus.Proofs.Relocation
import BisayaPlus.Proofs.RelocatedRuns
import BisayaPlus.Proofs.TrailingComments
import BisayaPlus.Proofs.Rounding
import BisayaPlus.Proofs.DecimalNumerals
import BisayaPlus.Proofs.Comparisons
import BisayaPlus.Proofs.NumeroInput
import BisayaPlus.Proofs.Fields
import BisayaPlus.Proofs.ReadBack
import BisayaPlus.Proofs.IntegerLiterals
import BisayaPlus.Proofs.MixedComparisons
import BisayaPlus.Proofs.Rounds
import BisayaPlus.Proofs.LoopForms
import BisayaPlus.Proofs.Correspondence
import BisayaPlus.Proofs.CorrespondingRuns
import BisayaPlus.Proofs.Widening
import BisayaPlus.Proofs.CountedLoops
import BisayaPlus.Proofs.AssignmentSites
import BisayaPlus.Proofs.CompoundAssignment
import BisayaPlus.Proofs.LineBreaks
import BisayaPlus.Proofs.IntegerArithmetic
import BisayaPlus.Proofs.Receiving
import BisayaPlus.Proofs.LongestLexemes
import BisayaPlus.Proofs.LineFeeds
import BisayaPlus.Proofs.Sweep
import BisayaPlus.Proofs.SweptSource
import BisayaPlus.Proofs.LineNumbers
import BisayaPlus.Proofs.TokenListings
import BisayaPlus.Proofs.TreeListings
import BisayaPlus.Proofs.CharacterLiterals
import BisayaPlus.Proofs.WholeLines
import BisayaPlus.Proofs.Narrowing
