import RouteAtlas.Document.Describe
import RouteAtlas.Document.Json
import RouteAtlas.Entity.Catalog
import RouteAtlas.Owner.Scan
import RouteAtlas.Store

/-!
# Building documents

A builder makes documents of route tables and stores each of them if it has a store. A document that
cannot be stored is reported and is still the result.
-/

namespace RouteAtlas

inductive BuildError where
  | walk (e : Route.WalkError)
  | handler (e : HandlerError)
  deriving DecidableEq

def BuildError.message : BuildError → Text
  | .walk e => e.message
  | .handler e => e.message

structure Builder where
  settings : DocumentSettings := {}
  owners : ControllerMap := []
  catalog : Option Catalog := none
  store : Option Store := none
  /-- Where the latest document was stored, if it was. -/
  written : Option Files.Path := none

namespace Builder

def ofSettings (s : Settings) : Action Files.Failure Builder := do
  let owners ← Owner.scan {} s.controllers
  return {
    settings := s.document
    owners := owners
    catalog := s.catalog.map .file
    store := some ⟨s.output⟩ }

/-- The document of a table, which is not stored. -/
def assemble (b : Builder) (t : Route.Table) : Action BuildError Document := do
  let entities ← Catalog.read b.catalog
  let entries ← Action.ofExcept (t.entries.mapError .walk)
  Action.note .info .assembler
    ("Building API document for " ++ Text.ofNat entries.length ++ " routes")
  let d ← Action.ofExcept
    ((Document.ofEntries b.settings b.owners entities entries).mapError .handler)
  Action.note .info .assembler
    ("Assembled " ++ Text.ofNat d.paths.length ++ " paths under " ++ Text.ofNat d.tags.length ++
      " tags")
  return d

/-- Stores a document, and says where if it could be stored. -/
def persist {ε : Type} (store : Option Store) (d : Document) : Action ε (Option Files.Path) := do
  match store with
  | none => return none
  | some store =>
    match ← Action.attempt (store.write d.toJson) with
    | .ok path =>
      Action.note .info .assembler ("API document written to " ++ path.toText)
      return some path
    | .error e =>
      Action.note .warning .assembler ("Could not persist API document: " ++ e.message)
      return none

/-- The document of a table, and the builder for the next one. -/
def build (b : Builder) (t : Route.Table) : Action BuildError (Document × Builder) := do
  let d ← b.assemble t
  let written ← persist b.store d
  return (d, { b with written := written })

end Builder

end RouteAtlas
