import AnalyzerBridge.Binary64.Shortest
import AnalyzerBridge.Json.Basic
import AnalyzerBridge.Text.Quoted

/-!
What can be wrong with a JSON text or value that is to be read, and how a message says it.
-/

namespace AnalyzerBridge

inductive Found where
  | null
  | bool (b : Bool)
  | number (n : Number)
  | text (s : String)
  | list
  | object
deriving DecidableEq, Repr

/-- What a value shows of itself. -/
def Json.found : Json → Found
  | .null => .null
  | .bool b => .bool b
  | .number n => .number n
  | .text s => .text s
  | .list _ => .list
  | .object _ => .object

def Found.describe : Found → String
  | .null => "null"
  | .bool true => "boolean `true`"
  | .bool false => "boolean `false`"
  | .number (.int n) => "integer `" ++ toString n ++ "`"
  | .number (.real x) => "floating point `" ++ x.text ++ "`"
  | .text s => "string " ++ Text.quoted s
  | .list => "sequence"
  | .object => "map"

/-- A reason why a value cannot be read. -/
inductive Fault where
  /-- The text ends inside or before a value. -/
  | valueEnds
  | listEnds
  | objectEnds
  | textEnds
  /-- The text is no JSON, or is nested too deeply, or holds a number out of range. -/
  | noValue
  | badWord
  | noColon
  | noListSeparator
  | noObjectSeparator
  | nameNotText
  | trailingComma
  | trailingText
  | badNumber
  | numberTooLarge
  | tooDeep
  | badEscape
  | controlCharacter
  | loneSurrogate
  | brokenSurrogatePair
  /-- The value is not of the wanted type, or not of the wanted range. -/
  | wrongType (found : Found) (wanted : String)
  | wrongValue (found : Found) (wanted : String)
  | wrongLength (length : Nat) (wanted : String)
  | unknownVariant (name : String) (known : List String)
  | duplicateField (name : String)
  | missingField (name : String)
  /-- No alternative of the named choice fits. -/
  | noAlternative (choice : String)
  /-- The value has the right type, and its reader refuses it. -/
  | refused (reason : String)
deriving DecidableEq, Repr

inductive FaultKind where
  | cutShort
  | malformed
  | unsuitable
deriving DecidableEq, Repr

namespace Fault

def kind : Fault → FaultKind
  | valueEnds | listEnds | objectEnds | textEnds => .cutShort
  | noValue | badWord | noColon | noListSeparator | noObjectSeparator | nameNotText
  | trailingComma | trailingText | badNumber | numberTooLarge | tooDeep | badEscape
  | controlCharacter | loneSurrogate | brokenSurrogatePair => .malformed
  | wrongType .. | wrongValue .. | wrongLength .. | unknownVariant .. | duplicateField ..
  | missingField .. | noAlternative .. | refused .. => .unsuitable

/-- A name between backticks. -/
def ticked (s : String) : String :=
  "`" ++ s ++ "`"

def alternatives : List String → String
  | [] => "there are no variants"
  | [a] => "expected " ++ ticked a
  | [a, b] => "expected " ++ ticked a ++ " or " ++ ticked b
  | names => "expected one of " ++ String.intercalate ", " (names.map ticked)

def message : Fault → String
  | valueEnds => "EOF while parsing a value"
  | listEnds => "EOF while parsing a list"
  | objectEnds => "EOF while parsing an object"
  | textEnds => "EOF while parsing a string"
  | noValue => "expected value"
  | badWord => "expected ident"
  | noColon => "expected `:`"
  | noListSeparator => "expected `,` or `]`"
  | noObjectSeparator => "expected `,` or `\x7d`"
  | nameNotText => "key must be a string"
  | trailingComma => "trailing comma"
  | trailingText => "trailing characters"
  | badNumber => "invalid number"
  | numberTooLarge => "number out of range"
  | tooDeep => "recursion limit exceeded"
  | badEscape => "invalid escape"
  | controlCharacter => "control character (\\u0000-\\u001F) found while parsing a string"
  | loneSurrogate => "lone leading surrogate in hex escape"
  | brokenSurrogatePair => "unexpected end of hex escape"
  | wrongType found wanted => "invalid type: " ++ found.describe ++ ", expected " ++ wanted
  | wrongValue found wanted => "invalid value: " ++ found.describe ++ ", expected " ++ wanted
  | wrongLength n wanted => "invalid length " ++ toString n ++ ", expected " ++ wanted
  | unknownVariant name known => "unknown variant " ++ ticked name ++ ", " ++ alternatives known
  | duplicateField name => "duplicate field " ++ ticked name
  | missingField name => "missing field " ++ ticked name
  | noAlternative choice => "data did not match any variant of untagged enum " ++ choice
  | refused reason => reason

end Fault

end AnalyzerBridge
