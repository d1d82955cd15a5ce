import CssModules.Main
import CssModules.Proofs.Resolution.Composing
import CssModules.Proofs.Resolution.Run
import CssModules.Proofs.Resolution.Ownership
import CssModules.Proofs.Resolution.Stack
import CssModules.Proofs.Resolution.Faithful
import CssModules.Proofs.Resolution.Solitary
import CssModules.Proofs.Path.Parent
import CssModules.Proofs.Naming.Lookup
import CssModules.Proofs.Resolution.Sessions
import CssModules.Proofs.Resolution.Sequential
import CssModules.Proofs.Resolution.Interleaving
import CssModules.Proofs.Resolution.Keys
import CssModules.Proofs.Resolution.SingleFlight
import CssModules.Proofs.Identifier.RoundTrip
import CssModules.Proofs.Identifier.Unspaced
import CssModules.Proofs.Text.Words
import CssModules.Proofs.Resolution.Linked
import CssModules.Proofs.Resolution.Provenance
import CssModules.Proofs.Resolution.Spelling
import CssModules.Proofs.Resolution.ClassLists
import CssModules.Proofs.Resolution.Supply
import CssModules.Proofs.Resolution.Effect
import CssModules.Proofs.Naming.Searches
import CssModules.Proofs.Naming.Relocation
import CssModules.Proofs.Template.Passes
import CssModules.Proofs.Template.HashContent
import CssModules.Proofs.Template.Reading
import CssModules.Proofs.Stylesheet.Acceptance
import CssModules.Proofs.Config.Layers
import CssModules.Proofs.Config.Commands
import CssModules.Proofs.Identifier.Legality
import CssModules.Proofs.Path.Lexical
import CssModules.Proofs.Resolution.Canonical
import CssModules.Proofs.Config.Root
import CssModules.Proofs.Digest.Tiers
import CssModules.Proofs.Digest.OnePass
import CssModules.Proofs.Digest.Positional
import CssModules.Proofs.Template.Parameters
import CssModules.Proofs.Stylesheet.Scoping
import CssModules.Proofs.Stylesheet.Scanning
import CssModules.Proofs.Stylesheet.Locations
import CssModules.Proofs.Stylesheet.Rules
import CssModules.Proofs.Stylesheet.FileNames
import CssModules.Proofs.Identifier.Endings
import CssModules.Proofs.Resolution.EscapedNames
import CssModules.Proofs.Stylesheet.ComposingRules
import CssModules.Proofs.Resolution.Composable
import CssModules.Proofs.Resolution.MapLaws
import CssModules.Proofs.Stylesheet.Concatenation
import CssModules.Proofs.Stylesheet.Comments
import CssModules.Proofs.Resolution.Chains
import CssModules.Proofs.Identifier.Terminators
import CssModules.Proofs.Template.PathParts
import CssModules.Proofs.Template.Unexpanded
import CssModules.Proofs.Config.Saving
