import InjectorTree.Session.Trial
import InjectorTree.Proofs.Commuting
import InjectorTree.Proofs.Sessions
import InjectorTree.Proofs.Permanence
import InjectorTree.Proofs.BothOrders
import InjectorTree.Proofs.Traces
import InjectorTree.Proofs.Placement.Afresh
import InjectorTree.Proofs.Equipped
import InjectorTree.Proofs.Shadowing
import InjectorTree.Proofs.Converting
import InjectorTree.Proofs.Elsewhere
import InjectorTree.Proofs.Requests.Bodies
import InjectorTree.Proofs.Requests.Static
import InjectorTree.Proofs.Handles
import InjectorTree.Proofs.ExplicitOnly
import InjectorTree.Proofs.Scoping
import InjectorTree.Proofs.Singletons
import InjectorTree.Proofs.Requests.Trails
import InjectorTree.Proofs.Precedence
import InjectorTree.Proofs.NearestScopes
import InjectorTree.Proofs.Placement.Chains
import InjectorTree.Proofs.Growth
import InjectorTree.Proofs.Requests.Constructions
import InjectorTree.Proofs.Requests.Defences
import InjectorTree.Proofs.Coherence
import InjectorTree.Proofs.Text.Naming
