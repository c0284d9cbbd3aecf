import CurveCalc.Document.Format
import CurveCalc.Yaml.Read
import CurveCalc.Yaml.Write

/-!
YAML as the format of files.
-/

set_option autoImplicit false
set_option relaxedAutoImplicit false

namespace CurveCalc.Yaml

def YamlError.toLoadError : YamlError → LoadError
  | value e => .value e
  | endless => .endless
  | _ => .malformed

def format : DataFormat where
  load text := (read text).mapError YamlError.toLoadError
  dump := write

end CurveCalc.Yaml
