import MediaViews.Dataset.Basic
import MediaViews.Proofs.Schema.RoundTrip

/-! Descriptions of datasets are read back as they were written, so a description and what is read
from its written form make the same dataset. -/
namespace MediaViews

theorem SortedMap.map?_toJson {α : Type} {encode : α → Json} {decode : Json → Option α}
    (h : ∀ a, decode (encode a) = some a) (m : SortedMap α) :
    Json.map? decode (m.toJson encode) = some m :=
  Json.map?_entries fun e _ => h e.2

theorem FieldDescription.ofJson?_toJson (d : FieldDescription) : ofJson? d.toJson = some d := by
  have hspread : d.toJson = .obj (FieldKind.spread d.path d.kind d.storageName) := by
    rw [toJson, FieldKind.spread]
    cases d.storageName <;> rfl
  have hstored : Json.optional Json.string? (d.storageName.map Json.str) = some d.storageName :=
    Json.optional_map (fun _ hnull => Json.noConfusion hnull) fun _ _ => rfl
  rw [hspread]
  unfold ofJson?
  rw [Json.record?_obj_of_nodup (FieldKind.nodup_keys_spread ..)]
  simp only [Json.members?, Option.bind_eq_bind, Option.bind_some, FieldKind.lookup_path_spread,
    FieldKind.lookup_storageName_spread, FieldKind.ofJson?_spread_members, Json.string?, hstored]
  rfl

theorem LabelDescription.ofJson?_toJson (d : LabelDescription) : ofJson? d.toJson = some d := by
  have hkeys : ["path", "kind", "attributes"].Nodup := by decide
  unfold ofJson? toJson
  rw [Json.record?_obj_of_nodup]
  · simp only [Option.bind_eq_bind, Option.bind_some, Value.lookup_cons_ite, String.reduceEq, if_true,
      if_false, Json.withDefault, Json.string?, LabelKind.ofJson?_toJson,
      SortedMap.map?_toJson (FieldKind.ofJson?_toJson false)]
    rfl
  · exact hkeys

namespace DatasetDescription

theorem ofJson?_toJson (d : DatasetDescription) : ofJson? d.toJson = some d := by
  have hkeys : fieldNames.Nodup := by decide
  have hslices : Json.withDefault ∅ (Json.map? MediaType.ofJson?)
      (some (d.sliceTypes.toJson MediaType.toJson)) = some d.sliceTypes :=
    SortedMap.map?_toJson MediaType.ofJson?_toJson d.sliceTypes
  have hfields : Json.withDefault [] (Json.list? FieldDescription.ofJson?)
      (some (.arr (d.fields.map (·.toJson)))) = some d.fields :=
    Json.list?_map FieldDescription.ofJson?_toJson d.fields
  have hlabels : Json.withDefault [] (Json.list? LabelDescription.ofJson?)
      (some (.arr (d.labels.map (·.toJson)))) = some d.labels :=
    Json.list?_map LabelDescription.ofJson?_toJson d.labels
  have hskeletons : Json.withDefault .empty Skeletons.ofJson? (some d.skeletons.toJson) =
      some d.skeletons := d.skeletons.ofJson?_toJson
  have hviews : Json.withDefault ∅ (Json.map? (Json.list? some))
      (some (d.savedViews.toJson .arr)) = some d.savedViews :=
    SortedMap.map?_toJson Json.list?_arr d.savedViews
  unfold ofJson? toJson
  rw [Json.record?_obj_of_nodup]
  · simp only [Option.bind_eq_bind, Option.bind_some, Value.lookup_cons_ite, String.reduceEq, if_true,
      if_false, Json.string?, MediaType.ofJson?_toJson, Stage.optional_string, hslices, hfields,
      hlabels, hskeletons, hviews]
    rfl
  · exact hkeys

/-- Kinds, fields and descriptions are read back as they were written. No member of a kind is called
like another member of the record that it is spread in, from which the kind is read alone. What was
read from JSON, in whatever form, makes the same dataset, with the same fields, as what is read from
its written form. -/
theorem schema_roundTrip :
    (∀ buffered kind, FieldKind.ofJson? buffered kind.toJson = some kind) ∧
    (∀ field : Field, Field.ofJson? field.toJson = some field) ∧
    (∀ d : DatasetDescription, ofJson? d.toJson = some d) ∧
    (∀ path kind storageName, ((FieldKind.spread path kind storageName).map (·.1)).Nodup ∧
      ∀ buffered, FieldKind.ofJson? buffered (.obj (FieldKind.spread path kind storageName)) =
        some kind) ∧
    (∀ j, (ofJson? j >>= fun d => ofJson? d.toJson) = ofJson? j) ∧
    ∀ d : DatasetDescription, (ofJson? d.toJson).map catalog = some d.catalog ∧
      (ofJson? d.toJson).map Dataset.ofDescription = some (Dataset.ofDescription d) := by
  refine ⟨FieldKind.ofJson?_toJson, Field.ofJson?_toJson, ofJson?_toJson,
    fun path kind storageName => ⟨FieldKind.nodup_keys_spread path kind storageName, fun buffered =>
      FieldKind.ofJson?_spread_members path kind storageName buffered⟩, fun j => ?_, fun d => ?_⟩
  · cases ofJson? j with
    | none => rfl
    | some d => exact ofJson?_toJson d
  · rw [ofJson?_toJson]
    exact ⟨rfl, rfl⟩

end DatasetDescription
end MediaViews
