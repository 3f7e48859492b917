import SpecForm.Main
import SpecForm.Proofs.Store.Indexing
import SpecForm.Proofs.Resolve.Hop
import SpecForm.Proofs.Resolve.Chase
import SpecForm.Proofs.Load.Targets
import SpecForm.Proofs.Load.Coverage
import SpecForm.Proofs.Load.Agreement
import SpecForm.Proofs.Load.Reachable
import SpecForm.Proofs.Resolve.Ending
import SpecForm.Proofs.Resolve.DynamicScope
import SpecForm.Proofs.Resolve.Alias
import SpecForm.Proofs.Resolve.Traversal
import SpecForm.Proofs.Store.Mappings
import SpecForm.Proofs.Resolve.Anchor
import SpecForm.Proofs.Resolve.InPlace
import SpecForm.Proofs.Resolve.Notes
import SpecForm.Proofs.Resolve.Persistence
import SpecForm.Proofs.Document.OperationIds
import SpecForm.Proofs.Resolve.Origin
import SpecForm.Proofs.Form.Schemas
import SpecForm.Proofs.Form.Walk
import SpecForm.Proofs.Form.Variants
import SpecForm.Proofs.Form.Features
import SpecForm.Proofs.Form.Registry
import SpecForm.Proofs.Resolve.Placed
import SpecForm.Proofs.Form.Depth
import SpecForm.Proofs.Form.Names
import SpecForm.Proofs.Form.Independence
import SpecForm.Proofs.Reference.RoundTrip
import SpecForm.Proofs.Resolve.Commutation
import SpecForm.Proofs.TypeScript.Reading
import SpecForm.Proofs.Load.Once
import SpecForm.Proofs.Load.DepthFirst
import SpecForm.Proofs.Form.Inheritance
import SpecForm.Proofs.Form.Nesting
import SpecForm.Proofs.Resolve.StaticScope
import SpecForm.Proofs.Document.Evaluation
import SpecForm.Proofs.Form.Components
import SpecForm.Proofs.Form.Mapping
import SpecForm.Proofs.Form.Maps
import SpecForm.Proofs.TypeScript.NormalForm
import SpecForm.Proofs.TypeScript.StringLiteral
import SpecForm.Proofs.Form.ControlNames
import SpecForm.Proofs.Form.Active
import SpecForm.Proofs.Form.Rules
import SpecForm.Proofs.Load.Attempts
