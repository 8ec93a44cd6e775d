import Gamebook.Main
import Gamebook.Proofs.Machine
import Gamebook.Proofs.Tree
import Gamebook.Proofs.Writing
import Gamebook.Proofs.Lexing
import Gamebook.Proofs.Assignments
import Gamebook.Proofs.Guards
import Gamebook.Proofs.Ranges
import Gamebook.Proofs.Conditions
import Gamebook.Proofs.Sentences
import Gamebook.Proofs.Acceptance
import Gamebook.Proofs.Characters
import Gamebook.Proofs.Phrases
import Gamebook.Proofs.Templates
import Gamebook.Proofs.Exploring
import Gamebook.Proofs.Validity
import Gamebook.Proofs.Compiling
import Gamebook.Proofs.Assembling
import Gamebook.Proofs.Requests
import Gamebook.Proofs.Libraries
import Gamebook.Proofs.Loading
import Gamebook.Proofs.Requirements
import Gamebook.Proofs.Calls
import Gamebook.Proofs.Failures
import Gamebook.Proofs.Linking
import Gamebook.Proofs.References
import Gamebook.Proofs.Registration
import Gamebook.Proofs.Interleaving
import Gamebook.Proofs.Deeds
import Gamebook.Proofs.Initialising
import Gamebook.Proofs.Readiness
import Gamebook.Proofs.Choosing
import Gamebook.Proofs.Passages
import Gamebook.Proofs.Moves
import Gamebook.Proofs.Pacing
import Gamebook.Proofs.Remembering
import Gamebook.Proofs.Scripts
import Gamebook.Proofs.Safety
import Gamebook.Proofs.Stumbling
import Gamebook.Proofs.Exits
import Gamebook.Proofs.Reloading
import Gamebook.Proofs.Recognising
import Gamebook.Proofs.Naming
import Gamebook.Proofs.Targets
import Gamebook.Proofs.Frames
import Gamebook.Proofs.Support
import Gamebook.Proofs.Locality
import Gamebook.Proofs.Unqualified
import Gamebook.Proofs.Operations
import Gamebook.Proofs.Causes
import Gamebook.Proofs.Building
import Gamebook.Proofs.Passes
import Gamebook.Proofs.Resolving
import Gamebook.Proofs.Printing
import Gamebook.Proofs.Menus
import Gamebook.Proofs.Effects
import Gamebook.Proofs.Enclosing
import Gamebook.Proofs.Compounds
import Gamebook.Proofs.Forgetting
import Gamebook.Proofs.Scanning
import Gamebook.Proofs.Placeholders
import Gamebook.Proofs.Snippets
import Gamebook.Store.Access
import Gamebook.Proofs.Ordering
import Gamebook.Proofs.Journals
import Gamebook.Proofs.Normalising
import Gamebook.Proofs.Pieces
import Gamebook.Proofs.Leftovers
import Gamebook.Proofs.Forests
import Gamebook.Proofs.Conserving
import Gamebook.Proofs.Regrouping
import Gamebook.Proofs.Violations
import Gamebook.Proofs.Cutting
