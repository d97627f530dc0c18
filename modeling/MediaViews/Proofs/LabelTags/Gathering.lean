import MediaViews.Proofs.Executor.Rendering
import MediaViews.Proofs.Executor.Stages
import MediaViews.Proofs.Path

/-! The tags that the labels of a document carry, and the list that they are gathered into. While
tags are gathered the field that holds them is a field of the document, so a source may even read
it; what it finds there is null. -/
namespace MediaViews

namespace Value

def orEmpty (v : Value) : Value := if v.isNull then .arr [] else v

def IsTagList (v : Value) : Prop := v = .null ∨ ∃ tags : List String, v = .arr (tags.map .str)

def tagsField (label : Value) : Value := (label.get? "tags").getD .null

def tags (label : Value) : List String := label.tagsField.items.filterMap string?

def IsGathered (v : Value) : Prop := v = .null ∨ ∃ tag : String, v = .str tag

theorem orEmpty_of_null_or_list {v : Value} (h : v.isNull ∨ v.isList) : v.orEmpty = .arr v.items := by
  rcases h with h | h
  · cases v <;> first | rfl | cases h
  · cases v <;> first | rfl | cases h

theorem IsTagList.orEmpty {v : Value} (h : v.IsTagList) :
    v.orEmpty = .arr ((v.items.filterMap string?).map .str) := by
  rcases h with rfl | ⟨tags, rfl⟩
  · rfl
  · simp [Value.orEmpty, isNull, items, List.filterMap_map, Function.comp_def, string?]

theorem valueAt_append (names rest : List String) (v : Value) :
    valueAt (names ++ rest) v = valueAt rest (valueAt names v) := by
  induction names generalizing v with
  | nil => rfl
  | cons name names ih =>
    cases v with
    | obj fields => simp only [List.cons_append, valueAt, ih]
    | arr items => simp only [List.cons_append, valueAt, ih]
    | _ => simp only [List.cons_append, valueAt, valueAt_null]

theorem valueAt_tags {label : Value} (h : label.isList = false) :
    valueAt ["tags"] label = label.tagsField := by
  cases label with
  | obj fields => rfl
  | arr items => simp [isList] at h
  | _ => rfl

theorem IsGathered.get? {v : Value} (h : v.IsGathered) (name : String) : v.get? name = none := by
  rcases h with rfl | ⟨tag, rfl⟩ <;> rfl

theorem valueAt_gathered {items : List Value} (h : ∀ v ∈ items, v.IsGathered) (name : String)
    (names : List String) :
    valueAt (name :: names) (.arr items) = .arr (List.replicate items.length .null) := by
  have hitems : items.map (fun item => (item.get? name).getD .null) =
      List.replicate items.length .null := by
    rw [List.eq_replicate_iff]
    refine ⟨List.length_map _, fun v hv => ?_⟩
    obtain ⟨item, hitem, rfl⟩ := List.mem_map.1 hv
    rw [(h item hitem).get?, Option.getD_none]
  rw [valueAt, hitems]
  clear hitems h
  induction names with
  | nil => rfl
  | cons name names ih =>
    rw [valueAt, List.map_replicate]
    exact ih

end Value

namespace TagSource

def roots (s : TagSource) (d : Document) : List Value :=
  match s.level with
  | .sample => [.obj d]
  | .frame => ((d.lookup LabelTags.framesField).getD .null).items

def labelPath (s : TagSource) : List String :=
  match s.listAttribute with
  | some listName => Path.components (s.storagePath ++ "." ++ listName)
  | none => Path.components s.storagePath

def labelsAt (s : TagSource) (root : Value) : List Value :=
  match s.listAttribute with
  | some _ => ((root.at? s.labelPath).getD .null).items
  | none => (root.at? s.labelPath).toList

def tagsAt (s : TagSource) (root : Value) : List String := (s.labelsAt root).flatMap Value.tags

def tags (s : TagSource) (d : Document) : List String := (s.roots d).flatMap s.tagsAt

/-- No list is met on the way to the labels of a root, and tags are lists of strings. Anything may
be null or missing. -/
structure WellFormedAt (s : TagSource) (root : Value) : Prop where
  path : root.crossesList s.labelPath = false
  list : s.listAttribute.isSome → ((root.at? s.labelPath).getD .null).isNull ∨
    ((root.at? s.labelPath).getD .null).isList
  label : ∀ label ∈ s.labelsAt root, label.isList = false
  tags : ∀ label ∈ s.labelsAt root, label.tagsField.IsTagList

structure WellFormed (s : TagSource) (d : Document) : Prop where
  frames : s.level = .frame → ((d.lookup LabelTags.framesField).getD .null).isNull ∨
    ((d.lookup LabelTags.framesField).getD .null).isList
  roots : ∀ root ∈ s.roots d, s.WellFormedAt root

/-- A reference to a field of a document whose name begins with a dollar sign is read as one to a
variable, so a source has its tags elsewhere if it has any. -/
def IsReferable (s : TagSource) (d : Document) : Prop :=
  s.level = .sample → Expr.beginsWithDollar s.storagePath → s.tags d = []

def readPath (s : TagSource) : String := s.storagePath ++ "." ++ s.listAttribute.getD "tags"

def gatherFrom (s : TagSource) (read : Expr) : Expr :=
  match s.listAttribute with
  | some _ => LabelTags.joined read (LabelTags.tagsOf .this)
  | none => read.orEmpty

theorem components_readPath_list {s : TagSource} (h : s.listAttribute.isSome) :
    Path.components s.readPath = s.labelPath := by
  obtain ⟨listName, hlist⟩ := Option.isSome_iff_exists.1 h
  rw [readPath, labelPath, hlist, Option.getD_some]

theorem components_readPath_single {s : TagSource} (h : s.listAttribute = none) :
    Path.components s.readPath = s.labelPath ++ ["tags"] := by
  have htags : Path.components "tags" = ["tags"] := Path.components_eq_singleton (by decide)
  rw [readPath, labelPath, h, Option.getD_none, Path.components_child, htags]

theorem components_readPath (s : TagSource) :
    Path.components s.readPath =
      Path.components s.storagePath ++ Path.components (s.listAttribute.getD "tags") :=
  Path.components_child ..

theorem labelPath_eq_append (s : TagSource) :
    ∃ rest, s.labelPath = Path.components s.storagePath ++ rest := by
  rw [labelPath]
  split
  · exact ⟨_, Path.components_child ..⟩
  · exact ⟨[], (List.append_nil _).symm⟩

theorem sourceTags_sample {s : TagSource} (h : s.level = .sample) :
    LabelTags.sourceTags s = s.gatherFrom (.field s.readPath) := by
  rw [LabelTags.sourceTags, gatherFrom, readPath, h]
  cases s.listAttribute <;> rfl

theorem sourceTags_frame {s : TagSource} (h : s.level = .frame) :
    LabelTags.sourceTags s =
      LabelTags.joined (.field LabelTags.framesField) (s.gatherFrom (.thisField s.readPath)) := by
  rw [LabelTags.sourceTags, gatherFrom, readPath, h]
  cases s.listAttribute <;> rfl

theorem gatherFrom_readable {s : TagSource} {read : Expr} (h : read.readable) :
    (s.gatherFrom read).readable := by
  rw [gatherFrom]
  cases s.listAttribute <;>
    simp [LabelTags.joined, LabelTags.tagsOf, Expr.orEmpty, Expr.emptyArray, Expr.extend, Expr.var,
      Expr.this, Expr.child, Expr.readable, Expr.readableList, h]

theorem gatherFrom_toJson_congr {s : TagSource} {read read' : Expr}
    (h : read'.toJson = read.toJson) :
    (s.gatherFrom read').toJson = (s.gatherFrom read).toJson := by
  rw [gatherFrom, gatherFrom]
  cases s.listAttribute <;> simp [LabelTags.joined, Expr.orEmpty, Expr.toJson, h]

end TagSource

namespace LabelTags

open Value

variable (ex : Executor)

theorem eval_orEmpty (e : Expr) (σ : Scope) : ex.eval e.orEmpty σ = (ex.eval e σ).orEmpty := by
  rw [Expr.orEmpty, Executor.eval, Value.orEmpty]
  rfl

theorem concat_pair (xs ys : List Value) : concat [.arr xs, .arr ys] = .arr (xs ++ ys) := by
  simp [concat, isList, items]

theorem foldl_append_items {items : List Value} {step : Value → Value → Value}
    {f : Value → List Value}
    (hstep : ∀ item ∈ items, ∀ gathered, step (.arr gathered) item = .arr (gathered ++ f item))
    (gathered : List Value) :
    items.foldl step (.arr gathered) = .arr (gathered ++ items.flatMap f) := by
  induction items generalizing gathered with
  | nil => rw [List.foldl_nil, List.flatMap_nil, List.append_nil]
  | cons item items ih =>
    rw [List.foldl_cons, hstep item List.mem_cons_self,
      ih (fun i hi => hstep i (List.mem_cons_of_mem _ hi)), List.flatMap_cons, List.append_assoc]

theorem eval_joined {list element : Expr} {items : List Value} {f : Value → List Value} {σ : Scope}
    (hlist : (ex.eval list σ).orEmpty = .arr items)
    (helement : ∀ item ∈ items, ∀ value,
      ex.eval element ((σ.bind "value" value).bind "this" item) = .arr (f item)) :
    ex.eval (joined list element) σ = .arr (items.flatMap f) := by
  -- The element is evaluated where both variables are bound anew, so it must not depend on what was
  -- gathered before.
  have hstep : ∀ item ∈ items, ∀ gathered,
      ex.eval ((Expr.var "value").extend element)
        ((σ.bind "value" (.arr gathered)).bind "this" item) = .arr (gathered ++ f item) := by
    intro item hitem gathered
    have hvalue : ex.eval (Expr.var "value")
        ((σ.bind "value" (.arr gathered)).bind "this" item) = .arr gathered := rfl
    rw [Expr.extend, Executor.eval, Executor.evalList, Executor.evalList, Executor.evalList,
      hvalue, helement item hitem, concat_pair]
  have hempty : ex.eval Expr.emptyArray σ = .arr [] := rfl
  rw [joined, Executor.eval, eval_orEmpty, hlist, hempty]
  exact foldl_append_items hstep []

theorem eval_tagsOf_this {item : Value} {σ : Scope} (h : item.isList = false)
    (htags : item.tagsField.IsTagList) (value : Value) :
    ex.eval (tagsOf .this) ((σ.bind "value" value).bind "this" item) =
      .arr (item.tags.map .str) := by
  have hthis : ex.eval (Expr.this.child "tags") ((σ.bind "value" value).bind "this" item) =
      item.tagsField := valueAt_tags h
  rw [tagsOf, eval_orEmpty, hthis, htags.orEmpty]
  rfl

theorem eval_gatherFrom {s : TagSource} {root : Value} (hroot : s.WellFormedAt root) {read : Expr}
    {σ : Scope} (hread : ex.eval read σ = root.valueAt (Path.components s.readPath)) :
    ex.eval (s.gatherFrom read) σ = .arr ((s.tagsAt root).map .str) := by
  have hat := valueAt_of_not_crossesList hroot.path
  rw [TagSource.gatherFrom]
  split
  · next listName hlist =>
    have hsome : s.listAttribute.isSome := hlist ▸ rfl
    have hitems : (ex.eval read σ).orEmpty = .arr (s.labelsAt root) := by
      rw [hread, TagSource.components_readPath_list hsome, hat, TagSource.labelsAt, hlist]
      exact orEmpty_of_null_or_list (hroot.list hsome)
    rw [eval_joined ex hitems fun label hlabel =>
      eval_tagsOf_this ex (hroot.label label hlabel) (hroot.tags label hlabel)]
    rw [TagSource.tagsAt, List.map_flatMap]
  · next hlist =>
    rw [eval_orEmpty, hread, TagSource.components_readPath_single hlist, valueAt_append, hat]
    have hlabels : s.labelsAt root = (root.at? s.labelPath).toList := by
      rw [TagSource.labelsAt, hlist]
    rw [TagSource.tagsAt, hlabels]
    cases hlabel : root.at? s.labelPath with
    | none => rfl
    | some label =>
      have hmem : label ∈ s.labelsAt root := by rw [hlabels, hlabel]; exact List.mem_singleton_self _
      rw [Option.getD_some, valueAt_tags (hroot.label label hmem), (hroot.tags label hmem).orEmpty]
      simp [Value.tags]

theorem eval_sourceTags_frame {s : TagSource} (hlevel : s.level = .frame) {d : Document}
    (hwf : s.WellFormed d) {σ : Scope}
    (hframes : σ.document.lookup framesField = d.lookup framesField) :
    ex.eval (sourceTags s) σ = .arr ((s.tags d).map .str) := by
  have hroots : s.roots d = ((d.lookup framesField).getD .null).items := by
    rw [TagSource.roots, hlevel]
  have hlist : (ex.eval (.field framesField) σ).orEmpty = .arr (s.roots d) := by
    have hfield : ex.eval (.field framesField) σ = (d.lookup framesField).getD .null := by
      rw [← hframes]
      rfl
    rw [hfield, hroots]
    exact orEmpty_of_null_or_list (hwf.frames hlevel)
  rw [TagSource.sourceTags_frame hlevel, eval_joined ex hlist fun root hroot value =>
    eval_gatherFrom ex (hwf.roots root hroot) rfl, TagSource.tags, List.map_flatMap]

theorem eval_gatherFrom_null (s : TagSource) {read : Expr} {σ : Scope}
    (hread : ex.eval read σ = .null) : ex.eval (s.gatherFrom read) σ = .arr [] := by
  have hempty : (ex.eval read σ).orEmpty = .arr [] := by rw [hread]; rfl
  rw [TagSource.gatherFrom]
  split
  · rw [eval_joined ex (f := fun _ => []) hempty nofun, List.flatMap_nil]
  · rw [eval_orEmpty, hempty]

theorem eval_gatherFrom_nulls (s : TagSource) {read : Expr} {σ : Scope} {count : Nat}
    (hread : ex.eval read σ = .arr (List.replicate count .null)) :
    ∃ n, ex.eval (s.gatherFrom read) σ = .arr (List.replicate n .null) := by
  have hlist : (ex.eval read σ).orEmpty = .arr (List.replicate count .null) := by rw [hread]; rfl
  rw [TagSource.gatherFrom]
  split
  · refine ⟨0, ?_⟩
    rw [eval_joined ex (f := fun _ => []) hlist, List.flatMap_eq_nil_iff.2 fun _ _ => rfl]
    · rfl
    · intro item hitem value
      rw [List.eq_of_mem_replicate hitem]
      rfl
  · exact ⟨count, by rw [eval_orEmpty, hlist]⟩

theorem exists_var_of_beginsWithDollar {path : String} (h : Expr.beginsWithDollar path) :
    ∃ e : Expr, e.readable ∧ e.toJson = (Expr.field path).toJson ∧
      ∀ d, ex.eval e ⟨d, []⟩ = .null := by
  obtain ⟨rest, hpath⟩ : ∃ rest, path.toList = '$' :: rest := by
    cases hlist : path.toList with
    | nil => simp [Expr.beginsWithDollar, hlist] at h
    | cons c rest => exact ⟨rest, by simpa [Expr.beginsWithDollar, hlist] using h⟩
  by_cases hdot : '.' ∈ rest
  · obtain ⟨name, more, rfl, hname⟩ := List.eq_append_cons_of_mem hdot
    refine ⟨.varField (.ofList name) (.ofList more), ?_, ?_, fun d => ?_⟩
    · simpa [Expr.varField, Expr.readable] using hname
    · rw [Expr.varField, Expr.field, Expr.toJson, Expr.toJson, Json.str.injEq]
      apply String.toList_injective
      simp [hpath]
    · exact valueAt_null _
  · refine ⟨.var (.ofList rest), ?_, ?_, fun d => rfl⟩
    · simpa [Expr.var, Expr.readable] using hdot
    · rw [Expr.var, Expr.field, Expr.toJson, Expr.toJson, Json.str.injEq]
      apply String.toList_injective
      simp [hpath]

/-- What a list of values holds while tags are gathered: the tags, and nulls that count for none. -/
structure Gathers (items : List Value) (tags : List String) : Prop where
  gathered : ∀ v ∈ items, v.IsGathered
  strings : items.filterMap string? = tags

theorem Gathers.ofTags (tags : List String) : Gathers (tags.map .str) tags where
  gathered := by
    intro v hv
    obtain ⟨tag, -, rfl⟩ := List.mem_map.1 hv
    exact .inr ⟨tag, rfl⟩
  strings := by simp [List.filterMap_map, Function.comp_def, string?]

theorem Gathers.ofNulls (n : Nat) : Gathers (List.replicate n .null) [] where
  gathered := by
    intro v hv
    exact .inl (List.eq_of_mem_replicate hv)
  strings := by simp [string?]

theorem Gathers.append {xs ys : List Value} {tags more : List String} (hxs : Gathers xs tags)
    (hys : Gathers ys more) : Gathers (xs ++ ys) (tags ++ more) where
  gathered := by
    intro v hv
    exact (List.mem_append.1 hv).elim (hxs.gathered v) (hys.gathered v)
  strings := by rw [List.filterMap_append, hxs.strings, hys.strings]

theorem valueAt_congr {name : String} {d d' : Document} (h : d.lookup name = d'.lookup name)
    (names : List String) :
    valueAt (name :: names) (.obj d) = valueAt (name :: names) (.obj d') := by
  rw [valueAt, valueAt, h]

theorem tags_sample {s : TagSource} (hlevel : s.level = .sample) (d : Document) :
    s.tags d = s.tagsAt (.obj d) := by
  rw [TagSource.tags, TagSource.roots, hlevel, List.flatMap_singleton]

theorem tags_of_field {s : TagSource} {names : List String} (hlevel : s.level = .sample)
    (hpath : Path.components s.storagePath = field :: names) (d : Document) :
    s.tags (d.without field) = [] := by
  obtain ⟨rest, hlabel⟩ := s.labelPath_eq_append
  have hat : (Value.obj (d.without field)).at? s.labelPath = none := by
    rw [hlabel, hpath, List.cons_append, at?, Value.get?, Document.lookup_without, if_pos rfl,
      Option.bind_none]
  rw [tags_sample hlevel, TagSource.tagsAt, TagSource.labelsAt, hat]
  cases s.listAttribute <;> rfl

theorem beginsWithDollar_readPath (s : TagSource) :
    Expr.beginsWithDollar s.readPath = Expr.beginsWithDollar s.storagePath := by
  rw [Expr.beginsWithDollar, Expr.beginsWithDollar, TagSource.readPath, String.toList_append,
    String.toList_append]
  cases s.storagePath.toList <;> simp

theorem exists_components_readPath (s : TagSource) :
    ∃ next rest, Path.components s.readPath = Path.components s.storagePath ++ next :: rest := by
  obtain ⟨next, rest, hrest⟩ := List.exists_cons_of_ne_nil
    (Path.components_ne_nil (s.listAttribute.getD "tags"))
  exact ⟨next, rest, by rw [TagSource.components_readPath, hrest]⟩

theorem eval_readPath_of_eq {s : TagSource} {names : List String}
    (hpath : Path.components s.storagePath = field :: names) (d : Document) {acc : List Value}
    (hacc : ∀ v ∈ acc, v.IsGathered) :
    ex.eval (.field s.readPath) ⟨d.set field (.arr acc), []⟩ =
      .arr (List.replicate acc.length .null) := by
  obtain ⟨last, lasts, hlast⟩ := exists_components_readPath s
  obtain ⟨next, rest, hrest⟩ := List.exists_cons_of_ne_nil
    (List.append_ne_nil_of_right_ne_nil names (List.cons_ne_nil last lasts))
  show valueAt (Path.components s.readPath) (.obj (d.set field (.arr acc))) = _
  rw [hlast, hpath, List.cons_append, hrest, valueAt, Document.lookup_set, if_pos rfl,
    Option.getD_some, valueAt_gathered hacc]

theorem eval_readPath_of_ne {s : TagSource} {name : String} {names : List String}
    (hpath : Path.components s.storagePath = name :: names) (hname : name ≠ field) (d : Document)
    (v : Value) :
    ex.eval (.field s.readPath) ⟨d.set field v, []⟩ =
      valueAt (Path.components s.readPath) (.obj (d.without field)) := by
  obtain ⟨last, lasts, hlast⟩ := exists_components_readPath s
  show valueAt (Path.components s.readPath) (.obj (d.set field v)) = _
  rw [hlast, hpath, List.cons_append]
  apply valueAt_congr
  rw [Document.lookup_set, Document.lookup_without, if_neg hname, if_neg hname]

theorem exists_read_sample {s : TagSource} (hlevel : s.level = .sample) {d : Document}
    (hwf : s.WellFormed (d.without field)) (hreferable : s.IsReferable (d.without field))
    {acc : List Value} (hacc : ∀ v ∈ acc, v.IsGathered) :
    ∃ read new, read.readable ∧ read.toJson = (Expr.field s.readPath).toJson ∧
      ex.eval (s.gatherFrom read) ⟨d.set field (.arr acc), []⟩ = .arr new ∧
      Gathers new (s.tags (d.without field)) := by
  by_cases hdollar : Expr.beginsWithDollar s.storagePath
  · -- The reference is read as a variable that is bound nowhere.
    obtain ⟨read, hread, hjson, heval⟩ := exists_var_of_beginsWithDollar ex
      (beginsWithDollar_readPath s ▸ hdollar)
    refine ⟨read, [], hread, hjson, eval_gatherFrom_null ex s (heval _), ?_⟩
    rw [hreferable hlevel hdollar]
    exact Gathers.ofNulls 0
  · have hread : (Expr.field s.readPath).readable := by
      simpa [Expr.field, Expr.readable, beginsWithDollar_readPath] using hdollar
    obtain ⟨name, names, hpath⟩ := List.exists_cons_of_ne_nil (Path.components_ne_nil s.storagePath)
    by_cases hname : name = field
    · subst hname
      obtain ⟨n, hn⟩ := eval_gatherFrom_nulls ex s (eval_readPath_of_eq ex hpath d hacc)
      refine ⟨_, _, hread, rfl, hn, ?_⟩
      rw [tags_of_field hlevel hpath]
      exact Gathers.ofNulls n
    · have hroot : s.WellFormedAt (.obj (d.without field)) := by
        apply hwf.roots
        rw [TagSource.roots, hlevel]
        exact List.mem_singleton_self _
      have hvalue := eval_readPath_of_ne ex hpath hname d (.arr acc)
      refine ⟨_, _, hread, rfl, eval_gatherFrom ex hroot hvalue, ?_⟩
      rw [tags_sample hlevel]
      exact Gathers.ofTags _

theorem exists_sourceTags {s : TagSource} {d : Document} (hwf : s.WellFormed (d.without field))
    (hreferable : s.IsReferable (d.without field)) {acc : List Value}
    (hacc : ∀ v ∈ acc, v.IsGathered) :
    ∃ new, ex.denote (sourceTags s).toJson ⟨d.set field (.arr acc), []⟩ = .arr new ∧
      Gathers new (s.tags (d.without field)) := by
  cases hlevel : s.level with
  | sample =>
    obtain ⟨read, new, hread, hjson, heval, hnew⟩ := exists_read_sample ex hlevel hwf hreferable hacc
    refine ⟨new, ?_, hnew⟩
    rw [TagSource.sourceTags_sample hlevel, ← TagSource.gatherFrom_toJson_congr hjson,
      Executor.denote_toJson ex (TagSource.gatherFrom_readable hread), heval]
  | frame =>
    have hreadable : (sourceTags s).readable := by
      have hinner : (s.gatherFrom (.thisField s.readPath)).readable :=
        TagSource.gatherFrom_readable (by
          simp [Expr.thisField, Expr.varField, Expr.readable])
      rw [TagSource.sourceTags_frame hlevel]
      simpa [joined, Expr.orEmpty, Expr.emptyArray, Expr.extend, Expr.var, Expr.field,
        Expr.readable, Expr.readableList] using ⟨by decide, hinner⟩
    refine ⟨_, ?_, Gathers.ofTags _⟩
    rw [Executor.denote_toJson ex hreadable]
    apply eval_sourceTags_frame ex hlevel hwf
    rw [Document.lookup_set, Document.lookup_without, if_neg (by decide), if_neg (by decide)]

theorem apply_set (e : Expr) (d : Document) (v : Value)
    (h : ex.denote e.toJson ⟨d, []⟩ = v) :
    ex.apply (.set field e) [d] = [d.set field v] := by
  have hfield : Path.components field = [field] := Path.components_eq_singleton (by decide)
  simp only [Stage.set, Executor.apply, List.map_cons, List.map_nil, Executor.setField, hfield,
    Document.assign, h]

theorem denote_extend (a b : Expr) (σ : Scope) :
    ex.denote (a.extend b).toJson σ = concat [ex.denote a.toJson σ, ex.denote b.toJson σ] := by
  rw [Expr.extend, Expr.toJson, Executor.denote_operator ex (by decide) (by decide)]
  rfl

theorem apply_gather {s : TagSource} {d : Document} (hwf : s.WellFormed (d.without field))
    (hreferable : s.IsReferable (d.without field)) {acc : List Value} {tags : List String}
    (hacc : Gathers acc tags) :
    ∃ acc', ex.apply (.set field ((Expr.field field).extend (sourceTags s)))
        [d.set field (.arr acc)] = [d.set field (.arr acc')] ∧
      Gathers acc' (tags ++ s.tags (d.without field)) := by
  obtain ⟨new, hnew, hgathers⟩ := exists_sourceTags ex hwf hreferable hacc.gathered
  refine ⟨acc ++ new, ?_, hacc.append hgathers⟩
  have hfield : ex.denote (Expr.field field).toJson ⟨d.set field (.arr acc), []⟩ = .arr acc := by
    rw [Executor.denote_toJson ex (by decide)]
    show valueAt (Path.components field) _ = _
    rw [Path.components_eq_singleton (by decide), valueAt, valueAt, Document.lookup_set,
      if_pos rfl, Option.getD_some]
  rw [apply_set ex _ _ (.arr (acc ++ new)), Document.set_set]
  rw [denote_extend, hfield, hnew, concat_pair]

theorem run_gather {sources : List TagSource} {d : Document}
    (hwf : ∀ s ∈ sources, s.WellFormed (d.without field))
    (hreferable : ∀ s ∈ sources, s.IsReferable (d.without field)) {acc : List Value} {tags : List String}
    (hacc : Gathers acc tags) :
    ∃ acc', ex.run (sources.map fun s => .set field ((Expr.field field).extend (sourceTags s)))
        [d.set field (.arr acc)] = [d.set field (.arr acc')] ∧
      Gathers acc' (tags ++ sources.flatMap (·.tags (d.without field))) := by
  -- Each source sees the tags of those before it, so what was gathered is generalized.
  induction sources generalizing acc tags with
  | nil =>
    rw [List.flatMap_nil, List.append_nil]
    exact ⟨acc, rfl, hacc⟩
  | cons s sources ih =>
    obtain ⟨hfirst, hrest⟩ := List.forall_mem_cons.1 hwf
    obtain ⟨hreferred, hreferable⟩ := List.forall_mem_cons.1 hreferable
    obtain ⟨acc₁, happly, hacc₁⟩ := apply_gather ex hfirst hreferred hacc
    obtain ⟨acc₂, hrun, hacc₂⟩ := ih hrest hreferable hacc₁
    refine ⟨acc₂, ?_, ?_⟩
    · rw [List.map_cons, Executor.run_cons, happly, hrun]
    · rw [List.flatMap_cons, ← List.append_assoc]
      exact hacc₂

theorem run_gatherStages {sources : List TagSource} {d : Document}
    (hwf : ∀ s ∈ sources, s.WellFormed (d.without field))
    (hreferable : ∀ s ∈ sources, s.IsReferable (d.without field)) :
    ∃ items, ex.run (gatherStages sources) [d] = [d.set field (.arr items)] ∧
      Gathers items (sources.flatMap (·.tags (d.without field))) := by
  obtain ⟨items, hrun, hitems⟩ := run_gather ex hwf hreferable (Gathers.ofNulls 0)
  refine ⟨items, ?_, hitems⟩
  have hempty : ex.denote Expr.emptyArray.toJson ⟨d, []⟩ = .arr [] :=
    Executor.denote_toJson_literal ex (.array []) _
  rw [gatherStages, Executor.run_cons, apply_set ex _ _ _ hempty]
  exact hrun

end LabelTags
end MediaViews
