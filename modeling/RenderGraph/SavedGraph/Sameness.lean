import RenderGraph.SavedGraph
/-!
# Saved graphs with the same content

Two saved graphs have the same content if they agree in all but the order of parameters, with
numbers compared as numbers: both zeros are the same, and what is not a number is not the same as
anything.
-/

namespace RenderGraph

mutual

/-- Whether two parameters have the same content. -/
def Param.same : (a b : Param) → Bool
  | .bool a, .bool b => a = b
  | .int a, .int b => a = b
  | .float a, .float b => a.eq b
  | .text a, .text b => a = b
  | .list as, .list bs => Param.sameList as bs
  | _, _ => false

/-- Whether two lists of parameters have the same content. -/
def Param.sameList : (as bs : List Param) → Bool
  | [], [] => true
  | a :: as, b :: bs => Param.same a b && Param.sameList as bs
  | _, _ => false

end

/-- Whether two options are both none or have the same content. -/
def sameOption {α : Type} (same : α → α → Bool) : (a b : Option α) → Bool
  | none, none => true
  | some a, some b => same a b
  | _, _ => false

/-- Whether two lists have the same content, place by place. -/
def sameItems {α : Type} (same : α → α → Bool) (as bs : List α) : Bool :=
  as.length = bs.length && (as.zip bs).all fun e => same e.1 e.2

/-- Whether two tables of parameters have the same content, in whatever order. -/
def Params.same (a b : Params) : Bool :=
  a.size = b.size && a.entries.all fun e => ((b.get? e.1).map (Param.same e.2)).getD false

/-- Whether two saved nodes have the same content. -/
def SavedNode.same (a b : SavedNode) : Bool :=
  a.className = b.className && a.x.eq b.x && a.y.eq b.y && a.kind = b.kind && a.name = b.name &&
    sameOption Params.same a.params b.params && sameOption Binary.eq a.width b.width &&
    sameOption Binary.eq a.height b.height && a.extraInputs = b.extraInputs

/-- Whether two frames have the same content. -/
def Frame.same (a b : Frame) : Bool :=
  a.title = b.title && a.viewport = b.viewport && a.position.x.eq b.position.x &&
    a.position.y.eq b.position.y && a.size.width.eq b.size.width && a.size.height.eq b.size.height

/-- Whether two saved graphs have the same content. -/
def SavedGraph.same (a b : SavedGraph) : Bool :=
  a.name = b.name && sameItems SavedNode.same a.nodes b.nodes && a.links = b.links &&
    sameItems Frame.same a.frames b.frames

end RenderGraph
