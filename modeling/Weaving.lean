import Weaving.Main
import Weaving.Proofs.Agreement
import Weaving.Proofs.Frames
import Weaving.Proofs.Ancestry
import Weaving.Proofs.Masking
import Weaving.Proofs.Numbering
import Weaving.Proofs.Rosters
import Weaving.Proofs.Matching
import Weaving.Proofs.Planning
import Weaving.Proofs.Scripts
import Weaving.Proofs.Watching
import Weaving.Proofs.Policy
import Weaving.Proofs.Process
import Weaving.Proofs.Moments
import Weaving.Proofs.Depth
import Weaving.Proofs.Conduct
import Weaving.Proofs.Segments
import Weaving.Proofs.CourseEvents
import Weaving.Proofs.WellFormed
import Weaving.Proofs.Collecting
import Weaving.Proofs.Loops
import Weaving.Proofs.References
import Weaving.Proofs.Soundness
import Weaving.Proofs.Entries
import Weaving.Proofs.Acceptance
import Weaving.Proofs.Selections
import Weaving.Proofs.Records
import Weaving.Proofs.Transparency
import Weaving.Proofs.Specialisation
import Weaving.Proofs.Authority
import Weaving.Proofs.Observers
import Weaving.Proofs.Promptness
import Weaving.Proofs.Observation
import Weaving.Proofs.Integrity
import Weaving.Proofs.Substitution
import Weaving.Proofs.Reads
import Weaving.Proofs.Bounds
import Weaving.Proofs.Naming
import Weaving.Proofs.Worlds
import Weaving.Proofs.Honesty
import Weaving.Proofs.Histories
import Weaving.Proofs.Cancellation
import Weaving.Proofs.Telling
import Weaving.Proofs.Following
import Weaving.Proofs.Literals
import Weaving.Proofs.Identity
import Weaving.Proofs.Tracing
import Weaving.Proofs.Sentences
import Weaving.Proofs.Renaming
import Weaving.Proofs.Reordering
import Weaving.Proofs.JsonText
import Weaving.Proofs.Saving
import Weaving.Proofs.Readings
import Weaving.Proofs.Coverage
import Weaving.Proofs.Hierarchy
import Weaving.Proofs.Passages
import Weaving.Proofs.Kinship
import Weaving.Proofs.Dispatch
import Weaving.Proofs.Blame
import Weaving.Proofs.Cycles
import Weaving.Proofs.Slices
import Weaving.Proofs.Templates
import Weaving.Proofs.Spelling
import Weaving.Proofs.Lexemes
import Weaving.Proofs.Offsets
import Weaving.Proofs.Prefixes
import Weaving.Proofs.Scopes
