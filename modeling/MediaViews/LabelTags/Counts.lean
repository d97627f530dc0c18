import MediaViews.LabelTags.Source
import MediaViews.Stage.Basic

/-! Stages that count the tags of all labels of a document. The tags are first gathered into one
list, one label field after the other, and the list is then turned into counts. -/
namespace MediaViews.LabelTags

def field : String := "_label_tags"

def framesField : String := "frames"

def tagsOf (label : Expr) : Expr := (label.child "tags").orEmpty

def joined (list element : Expr) : Expr :=
  .reduce list.orEmpty .emptyArray ((Expr.var "value").extend element)

def sourceTags (s : TagSource) : Expr :=
  match s.level, s.listAttribute with
  | .sample, none => tagsOf (.field s.storagePath)
  | .sample, some listName => joined (.field (s.storagePath ++ "." ++ listName)) (tagsOf .this)
  | .frame, none => joined (.field framesField) (tagsOf (.thisField s.storagePath))
  | .frame, some listName =>
    joined (.field framesField)
      (joined (.thisField (s.storagePath ++ "." ++ listName)) (tagsOf .this))

def gatherStages (sources : List TagSource) : List Stage :=
  .set field .emptyArray ::
    sources.map fun s => .set field ((Expr.field field).extend (sourceTags s))

def counts : Expr :=
  let tags := Expr.field field
  let count := Expr.size (.filter tags (Expr.this.eq (.var "tag")))
  .toObject (.map (.distinct tags) "tag" (.object [("k", .var "tag"), ("v", count)]))

def countStages (sources : List TagSource) : List Stage :=
  gatherStages sources ++ [.set field counts]

end MediaViews.LabelTags
