import QmlCodeModel.Token.Basic

/-! What the grammar finds wrong, and the words for it. -/
namespace QmlCodeModel

inductive GrammarFault
  | lexical (fault : LexicalFault)
  /-- This token or word is missing. -/
  | expected (text : String)
  | expectedRootObject
  | tokenAfterRootObject
  | expectedExpression
  | tokenAfterExpression
  | tooDeep
  | expectedIdentifier
  | expectedObjectMember
  | expectedObjectDefinition
  | expectedEnumValue
  | expectedModuleVersion
  | lineBreakAfterThrow
  | expectedCase
  | expectedHandler
  | expectedFunctionName
  | expectedClassName
  | expectedPropertyName
  | invalidAssignmentTarget
  | unexpectedKeyword (word : String)
  | unexpectedToken (text : String)
  | unexpectedEnd
  deriving DecidableEq, Repr

namespace GrammarFault

def quote (text : String) : String := "`" ++ text ++ "`"

def message : GrammarFault → String
  | .lexical fault => fault.message
  | .expected text => "expected " ++ quote text
  | .expectedRootObject => "expected a root object"
  | .tokenAfterRootObject => "unexpected token after root object"
  | .expectedExpression => "expected expression"
  | .tokenAfterExpression => "unexpected token after expression"
  | .tooDeep => "nesting is too deep"
  | .expectedIdentifier => "expected identifier"
  | .expectedObjectMember => "expected a property, object or declaration"
  | .expectedObjectDefinition => "expected an object definition"
  | .expectedEnumValue => "expected enum value"
  | .expectedModuleVersion => "expected module version"
  | .lineBreakAfterThrow => "illegal newline after " ++ quote "throw"
  | .expectedCase => "expected " ++ quote "case" ++ " or " ++ quote "default"
  | .expectedHandler => "expected " ++ quote "catch" ++ " or " ++ quote "finally"
  | .expectedFunctionName => "expected function name"
  | .expectedClassName => "expected class name"
  | .expectedPropertyName => "expected property name"
  | .invalidAssignmentTarget => "invalid assignment target"
  | .unexpectedKeyword word => "unexpected keyword " ++ quote word
  | .unexpectedToken text => "unexpected token " ++ quote text
  | .unexpectedEnd => "unexpected end of input"

end GrammarFault
end QmlCodeModel
