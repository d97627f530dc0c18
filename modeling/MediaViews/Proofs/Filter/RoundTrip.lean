import MediaViews.Proofs.Executor.Value
import MediaViews.Proofs.Filter.Bounds
import MediaViews.Proofs.Json.Records
import MediaViews.Proofs.Stage.Rereading

/-! Filters are read back as they were written, if their bounds are finite: JSON has no other
numbers. -/
namespace MediaViews

namespace Filter

theorem keys_entry_sublist {α : Type} (name : String) (encode : α → Json) (value : Option α) :
    ((entry name encode value).map (·.1)).Sublist [name] := by
  cases value with
  | none => exact List.nil_sublist _
  | some a => exact List.Sublist.refl _

theorem lookup_entry_append {α : Type} (name key : String) (encode : α → Json) (value : Option α)
    (rest : List (String × Json)) :
    (entry name encode value ++ rest).lookup key =
      if key = name then (value.map encode).or (rest.lookup key) else rest.lookup key := by
  cases value with
  | none => simp [entry]
  | some a =>
    rw [entry, List.singleton_append, Value.lookup_cons_ite, Option.map_some, Option.some_or]

def members (f : Filter) : List (String × Json) :=
  entry "values" valuesJson f.values ++ (entry "range" rangeJson f.range ++
    (entry "true" .bool f.includeTrue ++ (entry "false" .bool f.includeFalse ++
    (entry "nan" .bool f.nan ++ (entry "inf" .bool f.inf ++ (entry "ninf" .bool f.negInf ++
    (entry "none" .bool f.missing ++ (("exclude", .bool f.exclude) ::
    ("isMatching", .bool f.isMatching) :: (entry "search" .str f.search ++ [])))))))))

theorem toJson_eq_obj (f : Filter) : f.toJson = .obj f.members := by
  simp only [toJson, members, List.append_assoc, List.cons_append, List.nil_append, List.append_nil]

theorem keys_members_sublist (f : Filter) : (f.members.map (·.1)).Sublist fieldNames := by
  simp only [members, List.map_append, List.map_cons, List.map_nil]
  iterate 8 refine (keys_entry_sublist ..).append ?_
  exact (((keys_entry_sublist "search" Json.str f.search).append (.refl [])).cons_cons _).cons_cons _

theorem nodup_keys_members (f : Filter) : (f.members.map (·.1)).Nodup :=
  f.keys_members_sublist.nodup (by decide)

theorem list?_valuesJson (values : List (Option String)) :
    Json.list? (Json.nullable? Json.string?) (valuesJson values) = some values :=
  Json.list?_map (fun value => by cases value <;> rfl) values

theorem range?_rangeJson {range : Double × Double} (h : range.1.isFinite ∧ range.2.isFinite) :
    range? (rangeJson range) = some range := by
  rw [rangeJson, Json.ofDouble, Json.ofDouble, if_pos h.1, if_pos h.2]
  rfl

theorem ofJson?_toJson {f : Filter} (h : f.BoundsAreFinite) : ofJson? f.toJson = some f := by
  have hflag (value : Option Bool) :
      Json.optional Json.bool? (value.map Json.bool) = some value :=
    Json.optional_map nofun fun _ _ => rfl
  have hvalues : Json.optional (Json.list? (Json.nullable? Json.string?))
      (f.values.map valuesJson) = some f.values :=
    Json.optional_map nofun fun values _ => list?_valuesJson values
  have hrange : Json.optional range? (f.range.map rangeJson) = some f.range :=
    Json.optional_map nofun fun range hrange => range?_rangeJson (h range hrange)
  have hsearch : Json.optional Json.string? (f.search.map Json.str) = some f.search :=
    Json.optional_map nofun fun _ _ => rfl
  rw [toJson_eq_obj]
  unfold ofJson?
  rw [Json.record?_obj_of_nodup f.nodup_keys_members]
  simp only [Option.bind_eq_bind, Option.bind_some, members, lookup_entry_append,
    Value.lookup_cons_ite, String.reduceEq, if_true, if_false, List.lookup_nil, Option.or_none,
    hflag, hvalues, hrange, hsearch]
  rfl

end Filter
end MediaViews
