import TemplateLint.Tree.Statement

namespace TemplateLint

inductive NodeKind where
  | template
  | text
  | comment
  | mustacheComment
  | mustache
  | block
  | subExpression
  | element
  | attribute
  | elementModifier
  | path
  | literal
  deriving DecidableEq, Repr

namespace NodeKind

def all : List NodeKind :=
  [.template, .text, .comment, .mustacheComment, .mustache, .block, .subExpression, .element,
    .attribute, .elementModifier, .path, .literal]

def name : NodeKind → String
  | .template => "Template"
  | .text => "Text"
  | .comment => "Comment"
  | .mustacheComment => "MustacheComment"
  | .mustache => "Mustache"
  | .block => "Block"
  | .subExpression => "SubExpression"
  | .element => "Element"
  | .attribute => "Attribute"
  | .elementModifier => "ElementModifier"
  | .path => "Path"
  | .literal => "Literal"

def ofName? (name : String) : Option NodeKind := all.find? fun kind => kind.name == name

end NodeKind

namespace Tree

inductive Node where
  | template (t : Template)
  | text (t : TextRun)
  | comment (c : Comment)
  | mustacheComment (c : Comment)
  | mustache (m : Mustache)
  | block (b : Block)
  | subExpression (e : SubExpression)
  | element (e : Element)
  | attribute (a : Attribute)
  | elementModifier (m : ElementModifier)
  | path (p : Path)
  | literal (l : Literal)

namespace Node

def kind : Node → NodeKind
  | .template _ => .template
  | .text _ => .text
  | .comment _ => .comment
  | .mustacheComment _ => .mustacheComment
  | .mustache _ => .mustache
  | .block _ => .block
  | .subExpression _ => .subExpression
  | .element _ => .element
  | .attribute _ => .attribute
  | .elementModifier _ => .elementModifier
  | .path _ => .path
  | .literal _ => .literal

def span : Node → Span
  | .template t => t.span
  | .text t => t.span
  | .comment c => c.span
  | .mustacheComment c => c.span
  | .mustache m => m.span
  | .block b => b.span
  | .subExpression e => e.span
  | .element e => e.span
  | .attribute a => a.span
  | .elementModifier m => m.span
  | .path p => p.span
  | .literal l => l.span

end Node

mutual

def Expr.nodes : Expr → List Node
  | .path p => [.path p]
  | .literal l => [.literal l]
  | .subExpression ⟨call, span⟩ => .subExpression ⟨call, span⟩ :: call.nodes

def Call.nodes : Call → List Node
  | ⟨callee, params, hash⟩ => callee.nodes ++ Expr.nodesAll params ++ HashPair.nodesAll hash

def Expr.nodesAll : List Expr → List Node
  | [] => []
  | e :: es => e.nodes ++ Expr.nodesAll es

def HashPair.nodesAll : List HashPair → List Node
  | [] => []
  | ⟨_, value, _⟩ :: ps => value.nodes ++ HashPair.nodesAll ps

end

def Mustache.nodes (m : Mustache) : List Node := .mustache m :: m.call.nodes

def ConcatPart.nodes : ConcatPart → List Node
  | .text t => [.text t]
  | .mustache m => m.nodes

def AttrValue.nodes : AttrValue → List Node
  | .valueless => []
  | .text t => [.text t]
  | .mustache m => m.nodes
  | .concat parts _ => parts.flatMap ConcatPart.nodes

def Attribute.nodes (a : Attribute) : List Node := .attribute a :: a.value.nodes

def ElementModifier.nodes (m : ElementModifier) : List Node := .elementModifier m :: m.call.nodes

/-- The nodes in the opening tag of an element, kind by kind. -/
def Element.openingNodes (e : Element) : List Node :=
  e.attributes.flatMap Attribute.nodes ++ e.modifiers.flatMap ElementModifier.nodes ++
    e.comments.map .mustacheComment

mutual

def Statement.nodes : Statement → List Node
  | .text t => [.text t]
  | .comment c => [.comment c]
  | .mustacheComment c => [.mustacheComment c]
  | .mustache m => m.nodes
  | .block b => b.nodes
  | .element e => e.nodes

def Block.nodes : Block → List Node
  | ⟨call, blockParams, openSpan, program, inverse, close, span⟩ =>
    .block ⟨call, blockParams, openSpan, program, inverse, close, span⟩ ::
      (call.nodes ++ program.nodes ++ inverse.nodes)

def Body.nodes : Body → List Node
  | ⟨statements, _⟩ => Statement.nodesAll statements

def ElsePart.nodes : ElsePart → List Node
  | .absent => []
  | .final _ body => body.nodes
  | .chained segment => segment.nodes

def Element.nodes : Element → List Node
  | ⟨tag, tagSpan, attributes, modifiers, comments, params, children, single, opening, closing,
      span⟩ =>
    let element : Element :=
      ⟨tag, tagSpan, attributes, modifiers, comments, params, children, single, opening, closing,
        span⟩
    .element element :: (element.openingNodes ++ Statement.nodesAll children)

def Statement.nodesAll : List Statement → List Node
  | [] => []
  | s :: ss => s.nodes ++ Statement.nodesAll ss

end

/-- Every node of a template in the order in which rules see them, the template itself first. -/
def Template.nodes (t : Template) : List Node := .template t :: Statement.nodesAll t.body

end Tree

end TemplateLint
