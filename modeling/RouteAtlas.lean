import RouteAtlas.Main
import RouteAtlas.Proofs.Document.Paths
import RouteAtlas.Proofs.Handler.ObjectLiteral
import RouteAtlas.Proofs.Handler.Requests
import RouteAtlas.Proofs.Route.Table
import RouteAtlas.Route.Application
import RouteAtlas.Proofs.Document.Operations
import RouteAtlas.Proofs.Text.Utf8
import RouteAtlas.Proofs.Files.Tree
import RouteAtlas.Proofs.Files.Writing
import RouteAtlas.Proofs.Store
import RouteAtlas.Proofs.Document.Builds
import RouteAtlas.Proofs.Json.Whole
import RouteAtlas.Proofs.Service
import RouteAtlas.Proofs.Store.RoundTrip
import RouteAtlas.Proofs.Owner.Exports
import RouteAtlas.Proofs.Owner.ScanChange
import RouteAtlas.Proofs.Route.Manifest
import RouteAtlas.Proofs.Yaml.Block
import RouteAtlas.Proofs.Yaml.DocumentTokens
import RouteAtlas.Proofs.Yaml.Making
import RouteAtlas.Proofs.Yaml.NodeReading
import RouteAtlas.Proofs.Yaml.RoundTrip
import RouteAtlas.Proofs.Document.Handlers
import RouteAtlas.Proofs.Document.Tags
import RouteAtlas.Proofs.Files.Spared
import RouteAtlas.Proofs.CommandLine.Build
import RouteAtlas.Proofs.Store.YamlRoundTrip
import RouteAtlas.Proofs.Store.Reading
import RouteAtlas.Proofs.Settings
import RouteAtlas.Proofs.Document.Methods
import RouteAtlas.Proofs.Owner.Spelling
import RouteAtlas.Proofs.Route.Stable
import RouteAtlas.Proofs.Handler.Payload
import RouteAtlas.Proofs.Route.Application
import RouteAtlas.Proofs.Entity.Matching
import RouteAtlas.Proofs.Example
import RouteAtlas.Proofs.Handler.Pieces
import RouteAtlas.Proofs.Handler.Arguments
import RouteAtlas.Proofs.Entity.TypeTag
import RouteAtlas.Proofs.Entity.Layout
