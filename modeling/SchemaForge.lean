import SchemaForge.Execution.Answer
import SchemaForge.Proofs.Associations
import SchemaForge.Proofs.Coverage
import SchemaForge.Proofs.Execution.Blocking
import SchemaForge.Proofs.Isolation
import SchemaForge.Proofs.Offers
import SchemaForge.Proofs.Reach
import SchemaForge.Proofs.Shapes
import SchemaForge.Proofs.Store.Translation
import SchemaForge.Proofs.Synthesis.Redeclaring
import SchemaForge.Proofs.Language.Literals
import SchemaForge.Proofs.Registry.Calls
import SchemaForge.Proofs.Registry.Conforming
import SchemaForge.Proofs.Registry.Reconciling
import SchemaForge.Proofs.Registry.Sketch
import SchemaForge.Proofs.Declaration.Meaning
import SchemaForge.Proofs.Registry.Edits
import SchemaForge.Proofs.Synthesis.Recording
import SchemaForge.Proofs.Registry.Placing
import SchemaForge.Proofs.Synthesis.Placement
import SchemaForge.Proofs.Rebuilt
import SchemaForge.Proofs.Execution.Limits
import SchemaForge.Proofs.Execution.Requested
import SchemaForge.Proofs.Synthesis.Mentions
import SchemaForge.Proofs.Execution.Ties
import SchemaForge.Proofs.Execution.Nesting
import SchemaForge.Proofs.Execution.Sharing
import SchemaForge.Proofs.Registry.Commuting
import SchemaForge.Proofs.Registry.Keeping
import SchemaForge.Proofs.Store.Referring
import SchemaForge.Proofs.Returned
import SchemaForge.Proofs.Synthesis.Reordering
import SchemaForge.Proofs.Declaration.Extending
import SchemaForge.Proofs.Registry.Namesakes
import SchemaForge.Proofs.Declaration.Thunks
