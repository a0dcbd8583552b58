import Formula.Main
import Formula.Sample
import Formula.Proofs.Compilation
import Formula.Proofs.Contract
import Formula.Proofs.Discipline
import Formula.Proofs.Access
import Formula.Proofs.StackSafety
import Formula.Proofs.Session
import Formula.Proofs.TypeTable
import Formula.Proofs.WellTyped
import Formula.Proofs.AllowList
import Formula.Proofs.Honest
import Formula.Proofs.BuiltinTypes
import Formula.Proofs.NoInternalError
import Formula.Proofs.Composition
import Formula.Proofs.RoundTrip
import Formula.Proofs.Transparency
import Formula.Proofs.NestedUpdate
import Formula.Proofs.ValueIsolation
import Formula.Proofs.Noninterference
import Formula.Proofs.Pointing
import Formula.Proofs.Registration
import Formula.Proofs.ComputedOwner
import Formula.Proofs.BrokenChains
import Formula.Proofs.Determinism
import Formula.Proofs.Precedence
import Formula.Proofs.CompoundAssignment
import Formula.Proofs.PlaceDepth
import Formula.Proofs.UnknownNames
import Formula.Proofs.ViablePrefix
import Formula.Proofs.StringTokens
import Formula.Proofs.IntTexts
import Formula.Proofs.OverloadChoice
import Formula.Proofs.Concatenation
import Formula.Proofs.VariantNames
import Formula.Proofs.ListOperations
import Formula.Proofs.Iteration
import Formula.Proofs.Bookkeeping
import Formula.Proofs.Unfolding
import Formula.Proofs.StringPositions
import Formula.Proofs.InsertionOrder
import Formula.Proofs.ArgumentOrder
import Formula.Proofs.WrittenValues
import Formula.Proofs.StackDepth
import Formula.Proofs.ArenaSoundness
