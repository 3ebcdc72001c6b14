import QmlCodeModel.Grammar.Source

/-! The names of tokens, and of parts of trees, in data. -/
namespace QmlCodeModel

def TokenKind.label : TokenKind → String
  | .name => "name"
  | .punct => "punct"
  | .number => "number"
  | .string => "string"
  | .template => "template"
  | .regExp => "regexp"
  | .eof => "eof"

def VariableKind.label : VariableKind → String
  | .var => "var"
  | .let => "let"
  | .const => "const"

def PropertyKind.label : PropertyKind → String
  | .init => "init"
  | .shorthand => "shorthand"
  | .method => "method"
  | .getter => "getter"
  | .setter => "setter"
  | .spread => "spread"

def SourceForm.label : SourceForm → String
  | .qml => "qml"
  | .program => "program"
  | .expression => "expression"

def SourceForm.ofLabel? (label : String) : Option SourceForm :=
  [SourceForm.qml, .program, .expression].find? (·.label == label)

end QmlCodeModel
