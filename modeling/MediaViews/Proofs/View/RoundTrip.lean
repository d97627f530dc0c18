import MediaViews.Proofs.Filter.RoundTrip

/-! Requests are read back as they were written. What was read, in whatever form, is read again from
what is written for it. -/
namespace MediaViews

theorem GroupFilter.ofJson?_toJson (g : GroupFilter) : ofJson? g.toJson = some g := by
  have hkeys : ["id", "slice", "slices"].Nodup := by decide
  unfold ofJson? toJson
  rw [Json.record?_obj_of_nodup]
  · simp only [Option.bind_eq_bind, Option.bind_some, Value.lookup_cons_ite, String.reduceEq, if_true,
      if_false, Stage.optional_string, Stage.optional_strings]
    rfl
  · exact hkeys

theorem SampleFilter.ofJson?_toJson (s : SampleFilter) : ofJson? s.toJson = some s := by
  have hkeys : ["group", "id"].Nodup := by decide
  have hgroup : Json.optional GroupFilter.ofJson? (some (.ofOption GroupFilter.toJson s.group)) =
      some s.group :=
    Json.optional_ofOption nofun fun group _ => group.ofJson?_toJson
  unfold ofJson? toJson
  rw [Json.record?_obj_of_nodup]
  · simp only [Option.bind_eq_bind, Option.bind_some, Value.lookup_cons_ite, String.reduceEq, if_true,
      if_false, Stage.optional_string, hgroup]
    rfl
  · exact hkeys

theorem Filters.ofJson?_toJson {filters : Filters}
    (h : ∀ e ∈ filters.entries, e.2.BoundsAreFinite) : ofJson? filters.toJson = some filters :=
  Json.map?_entries fun e he => Filter.ofJson?_toJson (h e he)

namespace ViewRequest

theorem ofJson?_toJson {r : ViewRequest} (h : r.BoundsAreFinite) : ofJson? r.toJson = some r := by
  have hkeys : fieldNames.Nodup := by decide
  have hstages : Json.optional (Json.list? some) (some (.ofOption .arr r.stages)) = some r.stages :=
    Json.optional_ofOption nofun fun stages _ => Json.list?_arr stages
  have hfilters : Json.optional Filters.ofJson? (some (.ofOption Filters.toJson r.filters)) =
      some r.filters :=
    Json.optional_ofOption nofun fun filters hfilters => Filters.ofJson?_toJson (h filters hfilters)
  have hextendedStages : Json.optional Json.members? (some (.ofOption .obj r.extendedStages)) =
      some r.extendedStages :=
    @Json.optional_ofOption _ Json.obj Json.members? nofun _ fun _ _ => rfl
  have hsampleFilter : Json.optional SampleFilter.ofJson?
      (some (.ofOption SampleFilter.toJson r.sampleFilter)) = some r.sampleFilter :=
    Json.optional_ofOption nofun fun filter _ => filter.ofJson?_toJson
  have hflag (b : Bool) : Json.withDefault false Json.bool? (some (.bool b)) = some b := rfl
  unfold ofJson? toJson
  rw [Json.record?_obj_of_nodup]
  · simp only [Option.bind_eq_bind, Option.bind_some, Value.lookup_cons_ite, String.reduceEq, if_true,
      if_false, Json.string?, Stage.optional_string, hstages, hfilters, hflag, hextendedStages,
      hsampleFilter]
    rfl
  · exact hkeys

/-- Requests and filters are read back as they were written, if the bounds of filters are numbers
that JSON has. What was read from JSON, in whatever form, is read again from what is written for it,
since a text has finite numbers only. -/
theorem wire_roundTrip :
    (∀ r : ViewRequest, r.BoundsAreFinite → ofJson? r.toJson = some r) ∧
    (∀ f : Filter, f.BoundsAreFinite → Filter.ofJson? f.toJson = some f) ∧
    (∀ j : Json, j.isFinite → ∀ r, ofJson? j = some r → ofJson? r.toJson = some r) ∧
    (∀ j : Json, j.isFinite → ∀ f, Filter.ofJson? j = some f → Filter.ofJson? f.toJson = some f) ∧
    ∀ text j, Json.parse? text = some j → j.isFinite := by
  refine ⟨fun r => ofJson?_toJson, fun f => Filter.ofJson?_toJson, fun j hj r hr => ?_,
    fun j hj f hf => ?_, fun text j => Json.isFinite_of_readAs?⟩
  · exact ofJson?_toJson (boundsAreFinite_of_ofJson? hj hr)
  · exact Filter.ofJson?_toJson (Filter.boundsAreFinite_of_ofJson? hj hf)

def looseFilter : Json :=
  .obj [("isMatching", .bool true), ("values", .arr [.str "kept", .null]), ("unknown", .int 7),
    ("true", .null), ("false", .bool false), ("range", .arr [.int 1, .int 3])]

def looseRequest : Json :=
  .obj [("filters", .obj [("tags", looseFilter), ("score", looseFilter)]),
    ("dataset", .str "measured"), ("view_name", .null), ("unknown", looseFilter),
    ("extended_stages", .obj [("stages.Skip", .obj []), ("stages.Limit", .null)]),
    ("sample_filter", .obj [("group", .obj [("slices", .arr [.str "left"])])])]

theorem wire_roundTrip_loose :
    (∃ f, Filter.ofJson? looseFilter = some f ∧ Filter.ofJson? f.toJson = some f ∧
      f.BoundsAreFinite ∧ Filter.ofJson? f.excluding.toJson = some f.excluding) ∧
    ∃ r, ofJson? looseRequest = some r ∧ r.toJson ≠ looseRequest ∧ ofJson? r.toJson = some r ∧
      r.BoundsAreFinite ∧ ofJson? { r with reload := true }.toJson = some { r with reload := true } := by
  obtain ⟨hrequest, hfilter, hreread, hrereadFilter, -⟩ := wire_roundTrip
  have hlooseFilter : looseFilter.isFinite := by decide +kernel
  have hlooseRequest : looseRequest.isFinite := by decide +kernel
  obtain ⟨f, hf⟩ : ∃ f, Filter.ofJson? looseFilter = some f := ⟨_, rfl⟩
  obtain ⟨r, hr, hother⟩ : ∃ r, ofJson? looseRequest = some r ∧ r.toJson ≠ looseRequest :=
    ⟨_, rfl, by decide +kernel⟩
  have hfiniteFilter := Filter.boundsAreFinite_of_ofJson? hlooseFilter hf
  have hfinite := boundsAreFinite_of_ofJson? hlooseRequest hr
  exact ⟨⟨f, hf, hrereadFilter _ hlooseFilter f hf, hfiniteFilter,
    hfilter f.excluding hfiniteFilter⟩, r, hr, hother, hreread _ hlooseRequest r hr, hfinite,
    hrequest { r with reload := true } hfinite⟩

end ViewRequest
end MediaViews
