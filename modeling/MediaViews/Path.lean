/-! Dotted paths such as `gt.detections.label`, and their components. -/
namespace MediaViews.Path

def components (path : String) : List String :=
  (path.toList.splitOn '.').map String.ofList

def join (parts : List String) : String :=
  String.ofList (List.intercalate ['.'] (parts.map String.toList))

def child (path name : String) : String := path ++ "." ++ name

def name (path : String) : String := (components path).getLastD path

/-- The path without its last component; a path of one component is its own parent. -/
def parent (path : String) : String :=
  match (components path).dropLast with
  | [] => path
  | stem => join stem

def isNested (path : String) : Bool := path.toList.contains '.'

def framesStem : String := "frames."

def isFrameLevel (path : String) : Bool := framesStem.toList.isPrefixOf path.toList

def withinFrame? (path : String) : Option String :=
  if isFrameLevel path then some (String.ofList (path.toList.drop framesStem.length)) else none

def withinLevel (path : String) : String := (withinFrame? path).getD path

end MediaViews.Path
