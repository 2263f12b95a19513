import KeyConsole.Yaml.Tag

/-!
# Yaml.Token: the tokens of a source
-/

namespace KeyConsole.Yaml

/-- How a text is written down. -/
inductive Style where
  | plain
  | singleQuoted
  | doubleQuoted
  | literal
  | folded
  deriving DecidableEq, Inhabited, Repr

/-- A token.  The start and the end of a block stand for indentation. -/
inductive Token where
  | version (major minor : Nat)
  | tagHandle (handle : String) (start : Tag)
  | documentStart
  | documentEnd
  | blockSequenceStart
  | blockMappingStart
  | blockEnd
  | flowSequenceStart
  | flowSequenceEnd
  | flowMappingStart
  | flowMappingEnd
  | blockEntry
  | flowEntry
  | key
  | value
  | alias (name : String)
  | anchor (name : String)
  | tag (handle : String) (suffix : Tag)
  | text (style : Style) (s : String)
  deriving DecidableEq, Inhabited, Repr

end KeyConsole.Yaml
