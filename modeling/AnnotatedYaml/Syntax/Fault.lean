/-! Why YAML text is refused. -/

namespace AnnotatedYaml.Syntax

/-- A place in the text as the lexer counts it: characters read so far, the line counted
from one, and the column counted from zero. -/
structure Mark where
  index : Nat
  line : Nat
  col : Nat
  deriving Repr, BEq, Inhabited, DecidableEq

/-- The causes for refusing a text, one per rule of the YAML grammar that can be broken. -/
inductive Fault where
  | staleKey
  | missingKey
  | noNextToken
  | contentAfterDocumentEnd
  | badIndentation
  | reservedChar (c : Char)
  | tabIndentation
  | commentWithoutSpace
  | nestingTooDeep
  | entryInFlow
  | entryNotAllowed
  | anchorIndentation
  | entryNeedsSpace
  | keyNotAllowed
  | tabAfterKey
  | spaceExpected
  | colonBeforeOpening
  | colonNeedsSpace
  | colonPlacement
  | valueNotAllowed
  | directiveName
  | directiveNameChar
  | directiveEnd
  | versionDot
  | versionTooLong
  | versionMissing
  | tagDirectiveEnd
  | tagDirectiveBang
  | tagBang
  | globalTagChar
  | anchorEmpty
  | tagEnd
  | tagUriMissing
  | verbatimEnd
  | uriEscape
  | uriLeadByte
  | uriTrailByte
  | uriCodePoint
  | indicatorZero
  | blockHeaderEnd
  | blockTab
  | blockIndentation
  | quotedDocumentIndicator
  | quotedEnd
  | quotedIndentation
  | quotedTab
  | quotedTrailing
  | unknownEscape
  | escapeDigits
  | escapeCodePoint
  | flowIndentation
  | dashBeforeFlow
  | plainTab
  | plainEmpty
  | streamStartMissing
  | documentStartMissing
  | nodeMissing
  | unknownAlias
  | blockMappingKey
  | blockSequenceEntry
  | flowSequenceEntry
  | flowMappingEntry
  | duplicateVersion
  | duplicateTagHandle
  | undeclaredHandle
  | directiveWithoutEnd
  | unexpectedEnd
  deriving Repr, BEq, Inhabited

/-- The reason shown for each fault. -/
def Fault.info : Fault → String
  | .staleKey => "simple key expect ':'"
  | .missingKey => "simple key expected"
  | .noNextToken => "did not find expected next token"
  | .contentAfterDocumentEnd => "invalid content after document end marker"
  | .badIndentation => "invalid indentation"
  | .reservedChar c => "unexpected character: `" ++ c.toString ++ "'"
  | .tabIndentation => "tabs disallowed within this context (block indentation)"
  | .commentWithoutSpace => "comments must be separated from other tokens by whitespace"
  | .nestingTooDeep => "recursion limit exceeded"
  | .entryInFlow => "\"-\" is only valid inside a block"
  | .entryNotAllowed => "block sequence entries are not allowed in this context"
  | .anchorIndentation => "invalid indentation for anchor"
  | .entryNeedsSpace => "'-' must be followed by a valid YAML whitespace"
  | .keyNotAllowed => "mapping keys are not allowed in this context"
  | .tabAfterKey => "tabs disallowed in this context"
  | .spaceExpected => "expected whitespace"
  | .colonBeforeOpening => "':' may not precede any of `[\x7b` in flow mapping"
  | .colonNeedsSpace => "':' must be followed by a valid YAML whitespace"
  | .colonPlacement => "illegal placement of ':' indicator"
  | .valueNotAllowed => "mapping values are not allowed in this context"
  | .directiveName => "while scanning a directive, could not find expected directive name"
  | .directiveNameChar =>
    "while scanning a directive, found unexpected non-alphabetical character"
  | .directiveEnd =>
    "while scanning a directive, did not find expected comment or line break"
  | .versionDot =>
    "while scanning a YAML directive, did not find expected digit or '.' character"
  | .versionTooLong => "while scanning a YAML directive, found extremely long version number"
  | .versionMissing => "while scanning a YAML directive, did not find expected version number"
  | .tagDirectiveEnd => "while scanning TAG, did not find expected whitespace or line break"
  | .tagDirectiveBang => "while parsing a tag directive, did not find expected '!'"
  | .tagBang => "while scanning a tag, did not find expected '!'"
  | .globalTagChar => "invalid global tag character"
  | .anchorEmpty =>
    "while scanning an anchor or alias, did not find expected alphabetic or numeric character"
  | .tagEnd => "while scanning a tag, did not find expected whitespace or line break"
  | .tagUriMissing => "while parsing a tag, did not find expected tag URI"
  | .verbatimEnd => "while scanning a verbatim tag, did not find the expected '>'"
  | .uriEscape => "while parsing a tag, found an invalid escape sequence"
  | .uriLeadByte => "while parsing a tag, found an incorrect leading UTF-8 byte"
  | .uriTrailByte => "while parsing a tag, found an incorrect trailing UTF-8 byte"
  | .uriCodePoint => "while parsing a tag, found an invalid UTF-8 codepoint"
  | .indicatorZero =>
    "while scanning a block scalar, found an indentation indicator equal to 0"
  | .blockHeaderEnd =>
    "while scanning a block scalar, did not find expected comment or line break"
  | .blockTab => "a block scalar content cannot start with a tab"
  | .blockIndentation => "wrongly indented line in block scalar"
  | .quotedDocumentIndicator =>
    "while scanning a quoted scalar, found unexpected document indicator"
  | .quotedEnd => "while scanning a quoted scalar, found unexpected end of stream"
  | .quotedIndentation => "invalid indentation in quoted scalar"
  | .quotedTab => "tab cannot be used as indentation"
  | .quotedTrailing => "invalid trailing content after double-quoted scalar"
  | .unknownEscape => "while parsing a quoted scalar, found unknown escape character"
  | .escapeDigits => "while parsing a quoted scalar, did not find expected hexadecimal number"
  | .escapeCodePoint =>
    "while parsing a quoted scalar, found invalid Unicode character escape code"
  | .flowIndentation => "invalid indentation in flow construct"
  | .dashBeforeFlow => "plain scalar cannot start with '-' followed by ,[]\x7b\x7d"
  | .plainTab => "while scanning a plain scalar, found a tab"
  | .plainEmpty => "unexpected end of plain scalar"
  | .streamStartMissing => "did not find expected <stream-start>"
  | .documentStartMissing => "did not find expected <document start>"
  | .nodeMissing => "while parsing a node, did not find expected node content"
  | .unknownAlias => "while parsing node, found unknown anchor"
  | .blockMappingKey => "while parsing a block mapping, did not find expected key"
  | .blockSequenceEntry =>
    "while parsing a block collection, did not find expected '-' indicator"
  | .flowSequenceEntry => "while parsing a flow sequence, expected ',' or ']'"
  | .flowMappingEntry => "while parsing a flow mapping, did not find expected ',' or '\x7d'"
  | .duplicateVersion => "duplicate version directive"
  | .duplicateTagHandle =>
    "the TAG directive must only be given at most once per handle in the same document"
  | .undeclaredHandle => "the handle wasn't declared"
  | .directiveWithoutEnd => "missing explicit document end marker before directive"
  | .unexpectedEnd => "unexpected eof"

/-- A refused text: the fault and where the lexer stood when it found it. -/
structure SyntaxError where
  mark : Mark
  fault : Fault
  deriving Repr, Inhabited

def SyntaxError.info (e : SyntaxError) : String := e.fault.info

end AnnotatedYaml.Syntax
