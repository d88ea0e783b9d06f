import Listing.Json.Reader
import Listing.Schema.Document
import Listing.Text.Utf8
import Listing.Yaml.Node

namespace Listing

namespace Schema

def ofJson (text : String) : Except Fault Schema :=
  match (Json.Written.parse? text).bind Schema.read? with
  | some schema => .ok schema
  | none => .error .unreadable

def ofYaml (text : String) : Except Fault Schema :=
  match (Yaml.Node.parse? text).bind fun root => root.interpret? Schema.read? with
  | some schema => .ok schema
  | none => .error .unreadable

/-- Reads the bytes of a file, if there is one. A file that is not well-formed text cannot be had.
-/
def ofFile (bytes : Option (List UInt8)) : Except Fault Schema :=
  match bytes.bind Text.decodeUtf8? with
  | some text => ofYaml text
  | none => .error .unavailable

end Schema

end Listing
