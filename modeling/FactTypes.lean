import FactTypes.Session.Resolve
import FactTypes.Proofs.Names
import FactTypes.Proofs.Ancestry.Completeness
import FactTypes.Proofs.Session.Order
import FactTypes.Proofs.Session.Registration
import FactTypes.Proofs.Session.Identity
import FactTypes.Proofs.Session.Forgetting
import FactTypes.Proofs.Session.NearestRole
import FactTypes.Proofs.Session.EntryPoints
import FactTypes.Proofs.Session.Stability
import FactTypes.Proofs.Session.Authorship
import FactTypes.Proofs.Session.Immunity
import FactTypes.Proofs.Layout.Standing
import FactTypes.Proofs.Layout.Records
import FactTypes.Proofs.Layout.Populating
import FactTypes.Proofs.Session.FieldTypes
import FactTypes.Proofs.Session.Locality
import FactTypes.Proofs.Ancestry.Coverage
import FactTypes.Proofs.Ancestry.Nesting
import FactTypes.Proofs.Session.Precedence
import FactTypes.Proofs.Session.Footprint
import FactTypes.Proofs.Schema.Ordering
import FactTypes.Proofs.Options
import FactTypes.Proofs.Registry.Filing
