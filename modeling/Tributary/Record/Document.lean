import Tributary.Record.Codec
import Tributary.Yaml.Place
import Tributary.Yaml.Writer

/-!
# Records as documents

The YAML text under which a record is kept.
-/

namespace Tributary.Record

def document (r : Record) : String := Yaml.Writer.document r.toJson

def ofDocument? (text : String) : Option Record := Yaml.read Record.read text

end Tributary.Record
