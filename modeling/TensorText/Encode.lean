/-
The canonical text of a list of entries.

Names are written exactly as they are, nothing in them is escaped, payloads are base64,
and there is no blank anywhere: entries are parted by single commas and enclosed in
braces.
-/
import TensorText.Base64
import TensorText.Entry

namespace TensorText

/-- One entry, `"name":"shape;values"`. -/
def Entry.encode (e : Entry) : String :=
  "\"" ++ e.name ++ "\":\"" ++ String.ofList (Base64.encode e.dimensions) ++ ";" ++
    String.ofList (Base64.encode e.values) ++ "\""

/-- A list of entries in its order. -/
def encodeEntries (es : List Entry) : String :=
  "\x7b" ++ ",".intercalate (es.map Entry.encode) ++ "\x7d"

/-- A whole document. -/
def Document.encode (d : Document) : String := encodeEntries d.entries

end TensorText
