import ApiModel.Config.Toml
import ApiModel.Json.DocumentCodec
import ApiModel.LogFilter
import ApiModel.Proofs.Document.Acceptance
import ApiModel.Proofs.Document.Categories
import ApiModel.Proofs.Document.Dangling
import ApiModel.Proofs.Document.Defaults
import ApiModel.Proofs.Document.Embedding
import ApiModel.Proofs.Document.Enums
import ApiModel.Proofs.Document.Imports
import ApiModel.Proofs.Document.Locality
import ApiModel.Proofs.Document.Marks
import ApiModel.Proofs.Document.Paths
import ApiModel.Proofs.Document.Profiles
import ApiModel.Proofs.Document.Provenance
import ApiModel.Proofs.Document.Renormalization
import ApiModel.Proofs.Document.Reordering
import ApiModel.Proofs.Document.Selectors
import ApiModel.Proofs.Document.Tags
import ApiModel.Proofs.Document.Text
import ApiModel.Proofs.Document.Warnings
import ApiModel.Proofs.ListingOrder
import ApiModel.Proofs.Name.Kebab
import ApiModel.Proofs.Operation.Annotation
import ApiModel.Proofs.Operation.DerivedIds
import ApiModel.Proofs.Operation.Identifiers
import ApiModel.Proofs.Registry.DepthSearch
import ApiModel.Proofs.Registry.InPlace
import ApiModel.Proofs.Response
