import RouteAtlas.Project
import RouteAtlas.Proofs.Document.Builds

/-!
# What projects read

Up to the moment at which its document is written, a project only reads: its table, its builder and
the document itself leave all files as they are.
-/

namespace RouteAtlas

open RouteAtlas.Action

namespace Route.Manifest

variable {cs : Collections}

theorem quiet_plain (v : Value) : (plain cs v).Quiet := quiet_ofExcept _

theorem quiet_shown (v : Value) : (shown cs v).Quiet := quiet_ofExcept _

theorem quiet_textAt (es : List (Value × Value)) (key : Text) : (textAt cs es key).Quiet := by
  unfold textAt
  split
  · exact quiet_plain _
  · exact quiet_pure _

theorem quiet_source (dir : Files.Path) (es : List (Value × Value)) : (source dir cs es).Quiet := by
  unfold source
  split
  · refine (quiet_plain _).bind fun name => quiet_files.bind fun fs => ?_
    split
    · exact quiet_pure _
    · exact quiet_throw _
    · exact (quiet_note _ _ _).bind fun _ => quiet_pure _
  · exact quiet_textAt _ _

theorem quiet_handler (dir : Files.Path) (v : Value) : (handler dir cs v).Quiet := by
  unfold handler
  split
  · exact quiet_pure _
  · exact (quiet_textAt _ _).bind fun _ => (quiet_source _ _).bind fun _ => quiet_pure _
  · exact (quiet_shown _).bind fun _ => quiet_throw _

theorem quiet_methods (es : List (Value × Value)) : (methods cs es).Quiet := by
  unfold methods
  split
  · exact quiet_pure _
  · exact quiet_pure _
  · exact (quiet_ofExcept _).bind fun vs => quiet_mapM quiet_plain vs

theorem quiet_route (dir : Files.Path) (es : List (Value × Value)) (path : Value) :
    (route dir cs es path).Quiet :=
  (quiet_ofExcept _).bind fun raw => (quiet_mapM (quiet_handler dir) raw).bind fun _ =>
    (quiet_plain path).bind fun _ => (quiet_methods es).bind fun _ => quiet_pure _

theorem quiet_mountPath (es : List (Value × Value)) : (mountPath cs es).Quiet := by
  unfold mountPath
  split
  · exact quiet_plain _
  · exact quiet_textAt _ _

theorem quiet_nodes (dir : Files.Path) (fuel : Nat) (vs : List Value) :
    (nodes dir cs fuel vs).Quiet := by
  induction fuel generalizing vs with
  | zero => exact quiet_throw _
  | succ fuel ih =>
    refine quiet_mapM (fun v => ?_) vs
    split
    · exact (quiet_shown v).bind fun _ => quiet_throw _
    · split
      · exact (quiet_ofExcept _).bind fun children => (quiet_mountPath _).bind fun _ =>
          (ih children).bind fun _ => quiet_pure _
      · exact quiet_route _ _ _
      · exact (quiet_shown v).bind fun _ => quiet_throw _

theorem quiet_load (path : Files.Path) : (load path).Quiet := by
  refine quiet_files.bind fun fs => ?_
  split
  · exact quiet_throw _
  · exact quiet_throw _
  · exact quiet_throw _
  · exact (quiet_ofExcept _).bind fun d => (quiet_ofExcept _).bind fun vs => quiet_nodes _ _ vs

end Route.Manifest

namespace Owner

theorem quiet_scanFile {ε : Type} (n : Naming) (map : ControllerMap) (p : Files.Path) :
    (scanFile n map p : Action ε _).Quiet := by
  refine quiet_files.bind fun fs => ?_
  split
  · exact (quiet_note _ _ _).bind fun _ => quiet_pure _
  · dsimp only
    split
    · exact (quiet_note _ _ _).bind fun _ => quiet_pure _
    · exact quiet_pure _

theorem quiet_scan (n : Naming) (dir : Files.Path) : (scan n dir).Quiet := by
  refine quiet_files.bind fun fs => (quiet_ofExcept _).bind fun found => ?_
  split
  · exact (quiet_foldlM (quiet_scanFile n) _ _).bind fun _ =>
      (quiet_note _ _ _).bind fun _ => quiet_pure _
  · exact (quiet_note _ _ _).bind fun _ => quiet_pure _

end Owner

namespace Builder

theorem quiet_ofSettings (s : Settings) : (ofSettings s).Quiet :=
  (Owner.quiet_scan _ _).bind fun _ => quiet_pure _

theorem store_ofSettings {s : Settings} {b : Builder} {x x' : Session}
    (h : (ofSettings s).outcome x = (.ok b, x')) : b.store = some ⟨s.output⟩ := by
  obtain ⟨owners, t, -, h⟩ := outcome_bind_eq_ok.1 h
  cases h
  rfl

theorem quiet_assemble (b : Builder) (t : Route.Table) : (b.assemble t).Quiet := by
  intro s
  obtain ⟨d, h⟩ := exists_settles_assemble b t (Catalog.contents s.files b.catalog)
  obtain ⟨added, ha⟩ := h s rfl
  exact ⟨added, by rw [ha]⟩

end Builder

namespace Settings

theorem quiet_table (s : Settings) : s.table.Quiet := by
  unfold table
  split
  · exact quiet_throw _
  · exact (Route.Manifest.quiet_load _).mapError _

theorem quiet_builder (s : Settings) : s.builder.Quiet := (Builder.quiet_ofSettings s).mapError _

theorem store_builder {s : Settings} {b : Builder} {x x' : Session}
    (h : s.builder.outcome x = (.ok b, x')) : b.store = some ⟨s.output⟩ := by
  rw [builder, outcome_mapError] at h
  obtain ⟨hb, rfl⟩ := Prod.mk.inj h
  exact Builder.store_ofSettings (Prod.ext (mapError_eq_ok.1 hb) rfl)

end Settings

end RouteAtlas
