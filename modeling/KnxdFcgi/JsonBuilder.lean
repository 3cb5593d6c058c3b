import KnxdFcgi.Text

/-! `JsonBuilder`: a text that grows at its end, with the flag that says whether a member comes first in its
object and so without a comma. -/

namespace KnxdFcgi

structure JsonBuilder where
  buffer : Text := []
  first : Bool := true

namespace JsonBuilder

variable (json : JsonBuilder)

def startObject : JsonBuilder := { buffer := json.buffer ++ text "\x7b", first := true }

def endObject : JsonBuilder := { buffer := json.buffer ++ text "\x7d", first := false }

/-- The characters that stand for one in a quoted text. -/
def escapeChar (c : UInt8) : Text :=
  if c = ascii '"' then text "\\\""
  else if c = ascii '\\' then text "\\\\"
  else if c = ascii '\n' then text "\\n"
  else if c = ascii '\r' then text "\\r"
  else if c = ascii '\t' then text "\\t"
  else [c]

/-- What `add_quoted` appends. -/
def quoted (s : Text) : Text := text "\"" ++ s.flatMap escapeChar ++ text "\""

/-- What `add_comma` appends. -/
def comma : Text := if json.first then [] else text ","

def addString (key value : Text) : JsonBuilder where
  buffer := json.buffer ++ json.comma ++ quoted key ++ text ":" ++ quoted value
  first := false

def addNumber (key : Text) (value : Int) : JsonBuilder where
  buffer := json.buffer ++ json.comma ++ quoted key ++ text ":" ++ decimalInt value
  first := false

/-- The value that follows is the first of its own object. -/
def addKey (key : Text) : JsonBuilder where
  buffer := json.buffer ++ json.comma ++ quoted key ++ text ":"
  first := true

/-- Members that are text already. -/
def addRaw (raw : Text) : JsonBuilder where
  buffer := json.buffer ++ json.comma ++ raw
  first := false

variable {json}

/-- Hexadecimal needs no escapes. -/
theorem quoted_hexEncode (data : List UInt8) :
    quoted (hexEncode data) = text "\"" ++ hexEncode data ++ text "\"" := by
  have hplain : ∀ c ∈ text "0123456789abcdef", escapeChar c = [c] := by decide +kernel
  have hsame : (hexEncode data).flatMap escapeChar = hexEncode data := by
    calc (hexEncode data).flatMap escapeChar
        = (hexEncode data).flatMap fun c => [c] :=
          List.flatMap_congr fun c hc => hplain c (mem_hexEncode hc)
      _ = hexEncode data := List.flatMap_singleton' _
  rw [quoted, hsame]

end JsonBuilder
end KnxdFcgi
