import TemplateLint.Component.Schema

namespace TemplateLint.Component

/-- Event arguments of every component, and the native events that they stand for. -/
def events : List (String × String) :=
  [("touchStart", "touchstart"), ("touchMove", "touchmove"), ("touchEnd", "touchend"),
    ("touchCancel", "touchcancel"), ("keyDown", "keydown"), ("keyUp", "keyup"),
    ("keyPress", "keypress"), ("mouseDown", "mousedown"), ("mouseUp", "mouseup"),
    ("contextMenu", "contextmenu"), ("click", "click"), ("doubleClick", "dblclick"),
    ("focusIn", "focusin"), ("focusOut", "focusout"), ("submit", "submit"), ("input", "input"),
    ("change", "change"), ("dragStart", "dragstart"), ("drag", "drag"),
    ("dragEnter", "dragenter"), ("dragLeave", "dragleave"), ("dragOver", "dragover"),
    ("drop", "drop"), ("dragEnd", "dragend"), ("mouseEnter", "mouseenter"),
    ("mouseLeave", "mouseleave"), ("mouseMove", "mousemove")]

/-- Event arguments with a dash, which only the text components had. -/
def textEvents : List (String × String) :=
  [("key-down", "keydown"), ("key-up", "keyup"), ("key-press", "keypress"),
    ("focus-in", "focusin"), ("focus-out", "focusout")]

/-- Arguments of classic components that have no counterpart in a template. -/
def classicArguments : List String :=
  ["tagName", "classNames", "classNameBindings", "attributeBindings", "isVisible"]

/-- Arguments that are attributes of another name now. -/
def renamedAttributes : List (String × String) := [("elementId", "id"), ("ariaRole", "role")]

/-- Attributes of both text components. -/
def textAttributes : List String :=
  ["autocapitalize", "autocorrect", "autofocus", "disabled", "form", "maxlength", "minlength",
    "placeholder", "readonly", "required", "selectionDirection", "spellcheck", "tabindex", "title"]

def inputAttributes : List String :=
  ["accept", "autocomplete", "autosave", "dir", "formaction", "formenctype", "formmethod",
    "formnovalidate", "formtarget", "height", "inputmode", "lang", "list", "max", "min", "multiple",
    "name", "pattern", "size", "step", "width"]

def textareaAttributes : List String :=
  ["rows", "cols", "name", "selectionEnd", "selectionStart", "autocomplete", "wrap", "lang", "dir"]

def linkAttributes : List String := ["title", "rel", "tabindex", "target"]

/-- An argument of a component with its deprecation. -/
def retired (component : String) (fix : Option Migration) (argument : String) :
    String × Deprecation :=
  (argument, ⟨Deprecation.text component argument fix, fix⟩)

/-- Deprecated arguments: ones without a counterpart, renamed ones, and ones kept as attributes. -/
def deprecatedArguments (component : String) (gone : List String) (attributes : List String) :
    List (String × Deprecation) :=
  gone.map (retired component none) ++
    renamedAttributes.map (fun (argument, name) =>
      retired component (some (.attribute name)) argument) ++
    attributes.map fun name => retired component (some (.attribute name)) name

def deprecatedEvents (component : String) (events : List (String × String)) :
    List (String × Deprecation) :=
  events.map fun (argument, event) => retired component (some (.event event)) argument

def input : ComponentSchema where
  name := "Input"
  knownArguments := ["type", "value", "checked", "insert-newline", "enter", "escape-press"]
  requiredOneOf := []
  conflictGroups := []
  deprecatedArguments :=
    deprecatedArguments "Input" (classicArguments ++ ["bubbles"])
      (textAttributes ++ inputAttributes)
  deprecatedEvents := deprecatedEvents "Input" (events ++ textEvents)

def linkTo : ComponentSchema where
  name := "LinkTo"
  knownArguments :=
    ["route", "model", "models", "query", "replace", "disabled", "current-when", "activeClass",
      "loadingClass", "disabledClass"]
  requiredOneOf := [["route", "query"]]
  conflictGroups := [["model", "models"]]
  deprecatedArguments :=
    deprecatedArguments "LinkTo" (classicArguments ++ ["eventName"]) linkAttributes
  deprecatedEvents := deprecatedEvents "LinkTo" events

def textarea : ComponentSchema where
  name := "Textarea"
  knownArguments := ["value", "insert-newline", "enter", "escape-press"]
  requiredOneOf := []
  conflictGroups := []
  deprecatedArguments :=
    deprecatedArguments "Textarea" (classicArguments ++ ["bubbles"])
      (textAttributes ++ textareaAttributes)
  deprecatedEvents := deprecatedEvents "Textarea" (events ++ textEvents)

/-- The built-in components in the order of their names. -/
def all : List ComponentSchema := [input, linkTo, textarea]

/-- The schema of the component that a tag names. -/
def schema? (name : String) : Option ComponentSchema := all.find? fun c => c.name == name

def names : List String := all.map ComponentSchema.name

end TemplateLint.Component
