import TemplateLint.Config.Relaxed
import TemplateLint.Error

namespace TemplateLint.Configuration

/-- The configuration of a strict document. -/
def ofJson (text : String) : Except Error Configuration :=
  match read text with
  | .ok config => .ok config
  | .error e => .error (.configParse ("Invalid configuration: " ++ e.message))

/-- The configuration of a relaxed document. -/
def ofRelaxedJson (text : String) : Except Error Configuration :=
  match readRelaxed? text with
  | some config => .ok config
  | none => .error .configUnreadable

/-- The configuration of a file: nothing when there is no such file, else its bytes. -/
def load (path : String) : Option ByteArray → Except Error Configuration
  | none => .error (.io path "no such file")
  | some bytes =>
    match String.fromUTF8? bytes with
    | some text => ofRelaxedJson text
    | none => .error (.io path "the content is not UTF-8")

/-- The schema of documents, as a JSON document itself. -/
def jsonSchema : Json.Value :=
  .object [
    ("$schema", .string "https://json-schema.org/draft/2020-12/schema"),
    ("title", .string "LinterConfiguration"),
    ("description", .string "Rule configuration for one lint run"),
    ("type", .string "object"),
    ("properties", .object [
      ("rules", .object [
        ("description", .string "Rule configuration keyed by rule id; `true` enables a rule"),
        ("type", .string "object"),
        ("additionalProperties", .bool true),
        ("default", .object [])])]),
    ("additionalProperties", .bool false)]

end TemplateLint.Configuration
