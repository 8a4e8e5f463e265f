import TemplateLint.Diagnostic.Basic
import TemplateLint.Json.Value

namespace TemplateLint

def Span.toJson (s : Span) : Json.Value :=
  .object [("start", .int s.start), ("end", .int s.stop)]

def Fix.toJson (f : Fix) : Json.Value :=
  .object [("range", f.range.toJson), ("replacement", .string f.replacement)]

/-- The fields of a diagnostic; the last two only when they are set. -/
def Diagnostic.toJson (d : Diagnostic) : Json.Value :=
  .object ([
    ("message", .string d.message),
    ("source", .string d.source),
    ("line", .int d.position.line),
    ("column", .int d.position.column),
    ("isFixable", .bool d.isFixable),
    ("ruleId", .string d.ruleId),
    ("severity", .string d.severity.name),
    ("span", d.span.toJson)] ++
    (d.nodeKind.map fun kind => ("nodeKind", Json.Value.string kind.name)).toList ++
    (d.fix.map fun fix => ("fix", fix.toJson)).toList)

end TemplateLint
