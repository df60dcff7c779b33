/-!
What can go wrong in a template. The wording names the kind of fault only; the
fault of a template that another one rendered is shown behind it.
-/

namespace Bitpress

inductive TemplateFault
  | undefinedValue
  | unknownFilter
  | unknownTest
  | unknownFunction
  | unknownMethod
  | unknownBlock
  | syntaxError
  | badEscape
  | invalidOperation
  | missingArgument
  | tooManyArguments
  | cannotUnpack
  | templateNotFound
  | cannotInclude
  | cannotRenderBlock
  | badSerialization
  /-- A bit without the asked fragment; the text says which there are. -/
  | fragment (reason : String)
  /-- An operation that rendered another template, which failed. -/
  | nested (outer inner : TemplateFault)
deriving DecidableEq, Inhabited

namespace TemplateFault

def message : TemplateFault → String
  | undefinedValue => "undefined value"
  | unknownFilter => "unknown filter"
  | unknownTest => "unknown test"
  | unknownFunction => "unknown function"
  | unknownMethod => "unknown method"
  | unknownBlock => "unknown block"
  | syntaxError => "syntax error"
  | badEscape => "bad string escape"
  | invalidOperation => "invalid operation"
  | missingArgument => "missing argument"
  | tooManyArguments => "too many arguments"
  | cannotUnpack => "cannot unpack"
  | templateNotFound => "template not found"
  | cannotInclude => "could not render include"
  | cannotRenderBlock => "could not render block"
  | badSerialization => "could not serialize to value"
  | fragment reason => reason
  | nested outer inner => outer.message ++ ": template rendering failed: " ++ inner.message

end TemplateFault

end Bitpress
