import BoundedDerivation.Main
import BoundedDerivation.Randomness.Generator
import BoundedDerivation.Search.Plain
import BoundedDerivation.Search.Recursive
import BoundedDerivation.Proofs.Steps
import BoundedDerivation.Proofs.Drawing
import BoundedDerivation.Proofs.Search.Course
import BoundedDerivation.Proofs.Search.Moves
import BoundedDerivation.Proofs.Search.Alignment
import BoundedDerivation.Proofs.Search.DeadEnds
import BoundedDerivation.Proofs.Search.Outcome
import BoundedDerivation.Proofs.Checking
import BoundedDerivation.Proofs.Search.PlainSearch
import BoundedDerivation.Proofs.FreeDerivation
import BoundedDerivation.Proofs.Steering
import BoundedDerivation.Proofs.Search.Guidance
import BoundedDerivation.Proofs.Rebuilding
import BoundedDerivation.Proofs.Json.Reading
import BoundedDerivation.Proofs.Json.RoundTrip
import BoundedDerivation.Proofs.LineForm.Pieces
import BoundedDerivation.Proofs.LineForm.Items
import BoundedDerivation.Proofs.LineForm.RoundTrip
import BoundedDerivation.Proofs.Undeclared
import BoundedDerivation.Proofs.Rearrangement
import BoundedDerivation.Proofs.Search.Expansions
import BoundedDerivation.Proofs.Reconfiguration
import BoundedDerivation.Proofs.CommandLine
import BoundedDerivation.Proofs.Search.Recursion
import BoundedDerivation.Proofs.Arrangement
import BoundedDerivation.Proofs.Conservation
import BoundedDerivation.Proofs.LineForm.RuleList
import BoundedDerivation.Proofs.LineForm.Matching
import BoundedDerivation.Proofs.CanonicalForm
import BoundedDerivation.Proofs.LineForm.Overlooking
import BoundedDerivation.Proofs.Strictness
import BoundedDerivation.Proofs.LineForm.Blame
import BoundedDerivation.Proofs.LineForm.Contents
import BoundedDerivation.Proofs.LineForm.Layout
import BoundedDerivation.Proofs.Search.Burials
import BoundedDerivation.Proofs.Search.Backtracking
import BoundedDerivation.Proofs.Representation
