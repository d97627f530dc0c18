import MediaViews.Proofs.Executor.Value
import MediaViews.Proofs.Json.Records
import MediaViews.Proofs.Stage.Rereading
import MediaViews.Schema.Field
import MediaViews.Schema.MediaType
import MediaViews.Schema.Skeleton

/-! Kinds, fields and skeletons are read back as they were written. The members of a kind are spread
among those of a field, so a kind is read from an object that holds its members among others. -/
namespace MediaViews

theorem LabelKind.ofJson?_toJson (kind : LabelKind) : ofJson? kind.toJson = some kind := by
  cases kind <;> rfl

theorem MediaType.ofJson?_toJson (m : MediaType) : ofJson? m.toJson = some m := by
  cases m <;> rfl

namespace FieldKind

def memberNames : List String := ["type", "element", "label"]

theorem keys_members_sublist (kind : FieldKind) :
    (kind.members.map (·.1)).Sublist memberNames := by
  cases kind with
  | list element => exact .cons_cons _ (.cons_cons _ (List.nil_sublist _))
  | label kind => exact .cons_cons _ (.cons _ (.cons_cons _ (List.nil_sublist _)))
  | _ => exact .cons_cons _ (List.nil_sublist _)

theorem elementsOf_append (ms ns : List (String × Json)) :
    elementsOf (ms ++ ns) = elementsOf ms ++ elementsOf ns := by
  induction ms with
  | nil => rfl
  | cons m ms ih =>
    rw [List.cons_append, elementsOf, elementsOf, ih]
    split <;> rfl

def AreOther (members : List (String × Json)) : Prop := ∀ m ∈ members, m.1 ∉ memberNames

theorem AreOther.filter_eq_nil {members : List (String × Json)} (h : AreOther members) {key : String}
    (hkey : key ∈ memberNames) : members.filter (·.1 == key) = [] := by
  rw [List.filter_eq_nil_iff]
  exact fun m hm heq => h m hm (beq_iff_eq.1 heq ▸ hkey)

theorem AreOther.elementsOf_eq_nil {members : List (String × Json)} (h : AreOther members) :
    elementsOf members = [] := by
  induction members with
  | nil => rfl
  | cons m members ih =>
    obtain ⟨hm, hmembers⟩ := List.forall_mem_cons.1 h
    have hkey : m.1 ≠ "element" := fun heq => hm (heq ▸ by decide)
    rw [elementsOf, if_neg hkey, ih hmembers]

theorem assemble?_spread {before after : List (String × Json)} (hbefore : AreOther before)
    (hafter : AreOther after) (buffered : Bool) (members : List (String × Json)) :
    assemble? buffered (before ++ members ++ after) (elementsOf (before ++ members ++ after)) =
      assemble? buffered members (elementsOf members) := by
  have hfilter {key : String} (hkey : key ∈ memberNames) :
      (before ++ members ++ after).filter (·.1 == key) = members.filter (·.1 == key) := by
    rw [List.filter_append, List.filter_append, hbefore.filter_eq_nil hkey,
      hafter.filter_eq_nil hkey, List.nil_append, List.append_nil]
  rw [assemble?, assemble?, hfilter (by decide), hfilter (by decide), elementsOf_append,
    elementsOf_append, hbefore.elementsOf_eq_nil, hafter.elementsOf_eq_nil, List.nil_append,
    List.append_nil]

theorem assemble?_members {buffered : Bool} (kind : FieldKind) :
    assemble? buffered kind.members (elementsOf kind.members) = some kind := by
  induction kind generalizing buffered with
  | list element ih =>
    have helement : elementsOf (list element).members = [some element] := by
      rw [members, elementsOf, if_neg (by decide), elementsOf, if_pos rfl, elementsOf, ofJson?, ih]
    rw [helement]
    rfl
  | label kind => cases kind <;> rfl
  | _ => rfl

theorem ofJson?_spread {before after : List (String × Json)} (hbefore : AreOther before)
    (hafter : AreOther after) (buffered : Bool) (kind : FieldKind) :
    ofJson? buffered (.obj (before ++ kind.members ++ after)) = some kind := by
  rw [ofJson?, assemble?_spread hbefore hafter, assemble?_members]

theorem ofJson?_toJson (buffered : Bool) (kind : FieldKind) :
    ofJson? buffered kind.toJson = some kind := by
  rw [toJson, ofJson?, assemble?_members]

theorem lookup_members_eq_none {key : String} (h : key ∉ memberNames) (kind : FieldKind) :
    kind.members.lookup key = none := by
  rw [List.lookup_eq_none_iff]
  intro m hm
  exact bne_iff_ne.2 fun heq =>
    h (heq ▸ kind.keys_members_sublist.subset (List.mem_map_of_mem hm))

def spread (path : String) (kind : FieldKind) (storageName : Option String) :
    List (String × Json) :=
  ("path", .str path) :: kind.members ++
    (storageName.map fun name => ("db_field", Json.str name)).toList

variable (path : String) (kind : FieldKind) (storageName : Option String)

theorem nodup_keys_spread : ((spread path kind storageName).map (·.1)).Nodup := by
  -- No member of a kind is called like one of the record's own.
  have hsublist : ((spread path kind storageName).map (·.1)).Sublist
      ("path" :: memberNames ++ ["db_field"]) := by
    rw [spread, List.map_append, List.map_cons]
    refine (kind.keys_members_sublist.cons_cons _).append ?_
    cases storageName with
    | none => exact List.nil_sublist _
    | some name => exact .refl _
  exact hsublist.nodup (by decide)

theorem lookup_path_spread : (spread path kind storageName).lookup "path" = some (.str path) := by
  rw [spread, List.cons_append, List.lookup_cons_self]

theorem lookup_storageName_spread :
    (spread path kind storageName).lookup "db_field" = storageName.map Json.str := by
  rw [spread, List.cons_append, SortedMap.lookup_cons_of_ne (by decide), List.lookup_append,
    lookup_members_eq_none (by decide), Option.none_or]
  cases storageName with
  | none => rfl
  | some name => exact List.lookup_cons_self

theorem ofJson?_spread_members (buffered : Bool) :
    ofJson? buffered (.obj (spread path kind storageName)) = some kind := by
  have hbefore : AreOther [("path", .str path)] := by
    intro m hm
    obtain rfl := List.mem_singleton.1 hm
    show "path" ∉ memberNames
    decide
  have hafter : AreOther (storageName.map fun name => ("db_field", Json.str name)).toList := by
    intro m hm
    obtain ⟨name, -, rfl⟩ := Option.map_eq_some_iff.1 (Option.mem_toList.1 hm)
    show "db_field" ∉ memberNames
    decide
  exact ofJson?_spread hbefore hafter buffered kind

end FieldKind

theorem Field.ofJson?_toJson (field : Field) : ofJson? field.toJson = some field := by
  have hspread : field.toJson =
      .obj (FieldKind.spread field.path field.kind (some field.storageName)) := rfl
  rw [hspread]
  unfold ofJson?
  rw [Json.record?_obj_of_nodup (FieldKind.nodup_keys_spread ..)]
  simp only [Json.members?, Option.bind_eq_bind, Option.bind_some, FieldKind.lookup_path_spread,
    FieldKind.lookup_storageName_spread, FieldKind.ofJson?_spread_members, Json.string?,
    Option.map_some]
  rfl

theorem Skeleton.ofJson?_toJson (s : Skeleton) : ofJson? s.toJson = some s := by
  have hkeys : ["labels", "edges"].Nodup := by decide
  have hlabels : Json.list? Json.string? (.ofStrings s.labels) = some s.labels :=
    Json.list?_ofStrings s.labels
  have hedges : Json.list? (Json.list? Json.count?)
      (.arr (s.edges.map fun edge => .arr (edge.map fun i => .int i.toNat))) = some s.edges :=
    Json.list?_map (fun edge => Json.list?_map Json.count?_countJson edge) s.edges
  unfold ofJson? toJson
  rw [Json.record?_obj_of_nodup]
  · simp only [Option.bind_eq_bind, Option.bind_some, Value.lookup_cons_ite, String.reduceEq, if_true,
      if_false, Json.withDefault, hlabels, hedges]
    rfl
  · exact hkeys

theorem Skeletons.ofJson?_toJson (s : Skeletons) : ofJson? s.toJson = some s := by
  have hkeys : ["skeletons", "default_skeleton"].Nodup := by decide
  have hfields : Json.map? Skeleton.ofJson?
      (.obj (s.byField.entries.map fun e => (e.1, e.2.toJson))) = some s.byField :=
    Json.map?_entries fun e _ => e.2.ofJson?_toJson
  have hfallback : Json.optional Skeleton.ofJson?
      (some (.ofOption Skeleton.toJson s.fallback)) = some s.fallback :=
    Json.optional_ofOption nofun fun skeleton _ => skeleton.ofJson?_toJson
  unfold ofJson? toJson
  rw [Json.record?_obj_of_nodup]
  · simp only [Option.bind_eq_bind, Option.bind_some, Value.lookup_cons_ite, String.reduceEq, if_true,
      if_false, Json.withDefault, hfields, hfallback]
    rfl
  · exact hkeys

end MediaViews
