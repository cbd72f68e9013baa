import AnalyzerBridge.Json.Reader
import AnalyzerBridge.Json.Writer
import AnalyzerBridge.Session.Message
import AnalyzerBridge.Text.Blank
import AnalyzerBridge.Text.Numeral

/-!
Messages on a stream: a header with the number of bytes, an empty line, and the text.
-/

namespace AnalyzerBridge.Session.Frame

/-- The name of the header line that holds the number of bytes, in small letters. -/
def lengthName : List Char := "content-length".toList

/-- The number of bytes that a header line announces. -/
def length? (line : String) : Option Nat :=
  match line.toList.span (· ≠ ':') with
  | (name, ':' :: value) =>
    if (Text.trim name).map Char.toLower = lengthName then
      Text.numeral? (twoTo 63) (Text.trim value)
    else none
  | _ => none

def message? (text : String) : Option Message :=
  (Json.readWhole Json.read text).toOption.map Message.ofJson

def write (out : Outgoing) : String :=
  let members := match out.toJson with
    | .object members => members
    | _ => []
  let text := (Json.object (("jsonrpc", .text "2.0") :: members)).compact
  "Content-Length: " ++ toString text.utf8ByteSize ++ "\r\n\r\n" ++ text

end AnalyzerBridge.Session.Frame
