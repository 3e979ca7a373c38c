import ScriptFlow.Yaml.Cursor

/-!
# Tokens of YAML text

The pieces a YAML text is made of, and what can be wrong with a text.
-/

namespace ScriptFlow.Yaml

/-- What makes a text no YAML. -/
inductive Problem
  | forbiddenCharacter
  | unexpectedCharacter
  | tabInIndentation
  | missingColon
  | entryNotAllowed
  | keyNotAllowed
  | valueNotAllowed
  | unterminatedQuote
  | documentMarkerInQuote
  | unknownEscape
  | badEscapeCode
  | badBlockHeader
  | badName
  | badTag
  | undefinedTagHandle
  | badDirective
  | unsupportedVersion
  | duplicateDirective
  | missingDocumentStart
  | missingContent
  | missingEntry
  | missingKey
  | missingComma
  | unknownAnchor
  | selfContainingAnchor
  | excessiveAliasing
  | mergeOfNoMapping
  | collectionAsKey
  | badTaggedValue
  | tooDeep
deriving DecidableEq, Repr

/-- The wording of a problem. -/
def Problem.message : Problem → String
  | forbiddenCharacter => "control characters are not allowed"
  | unexpectedCharacter => "found character that cannot start any token"
  | tabInIndentation => "found a tab character where an indentation space is expected"
  | missingColon => "could not find expected ':'"
  | entryNotAllowed => "block sequence entries are not allowed in this context"
  | keyNotAllowed => "mapping keys are not allowed in this context"
  | valueNotAllowed => "mapping values are not allowed in this context"
  | unterminatedQuote => "found unexpected end of stream"
  | documentMarkerInQuote => "found unexpected document indicator"
  | unknownEscape => "found unknown escape character"
  | badEscapeCode => "found invalid character escape code"
  | badBlockHeader => "did not find expected comment or line break"
  | badName => "did not find expected alphabetic or numeric character"
  | badTag => "did not find expected tag"
  | undefinedTagHandle => "found undefined tag handle"
  | badDirective => "found unknown directive name"
  | unsupportedVersion => "found incompatible YAML document"
  | duplicateDirective => "found duplicate directive"
  | missingDocumentStart => "did not find expected <document start>"
  | missingContent => "did not find expected node content"
  | missingEntry => "did not find expected '-' indicator"
  | missingKey => "did not find expected key"
  | missingComma => "did not find expected ','"
  | unknownAnchor => "unknown anchor referenced"
  | selfContainingAnchor => "anchor value contains itself"
  | excessiveAliasing => "document contains excessive aliasing"
  | mergeOfNoMapping => "map merge requires map or sequence of maps as the value"
  | collectionAsKey => "hash of unhashable type"
  | badTaggedValue => "cannot decode value as its tag says"
  | tooDeep => "exceeded max depth"

/-- How a scalar is written. -/
inductive ScalarStyle
  | plain
  | quoted
  | block
deriving DecidableEq, Repr

/-- What a token is. -/
inductive TokenKind
  | streamStart
  | streamEnd
  | version (major minor : Nat)
  | tagDirective (handle expansion : String)
  | documentStart
  | documentEnd
  | blockSequence
  | blockMapping
  | blockEnd
  | openBracket
  | closeBracket
  | openBrace
  | closeBrace
  | blockEntry
  | flowEntry
  | key
  | value
  | alias (name : String)
  | anchor (name : String)
  | tag (handle suffix : String)
  | scalar (text : String) (style : ScalarStyle)
deriving DecidableEq, Repr

/-- A piece of a YAML text and the line in which it starts, counted from zero. -/
structure Token where
  kind : TokenKind
  line : Nat
deriving DecidableEq, Repr

end ScriptFlow.Yaml
