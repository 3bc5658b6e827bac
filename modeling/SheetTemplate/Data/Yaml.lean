import SheetTemplate.Data.Basic
import SheetTemplate.Text.Blank
import SheetTemplate.Yaml.Printer
/-!
Data trees from YAML values. Keys become texts: a key that is not a text gets the text that YAML
writes for it. Of keys that become equal the last one counts. Local tags are dropped.
-/
namespace SheetTemplate.Data

def yamlKey : Yaml.Value → String
  | .null => "null"
  | .bool b => if b then "true" else "false"
  | .int i => Text.decimalInt i
  | .float x => Yaml.Printer.floatText x
  | .text cs => String.ofList cs
  | v => Text.trim (Yaml.Printer.text v)

mutual

/-- The data of a YAML value. Whole numbers beyond 64 bits with sign become floating. -/
def ofYaml : Yaml.Value → Data
  | .null => null
  | .bool b => bool b
  | .int i => if i < twoTo 63 then int (Int64.ofInt i) else float (Binary64.ofInt i)
  | .float x => float x
  | .text cs => text (String.ofList cs)
  | .list items => list (ofYamlItems items)
  | .record entries => ofFields (ofYamlEntries entries)
  | .tagged _ v => ofYaml v

def ofYamlItems : List Yaml.Value → List Data
  | [] => []
  | v :: rest => ofYaml v :: ofYamlItems rest

def ofYamlEntries : List (Yaml.Value × Yaml.Value) → List (String × Data)
  | [] => []
  | (k, v) :: rest => (yamlKey k, ofYaml v) :: ofYamlEntries rest

end

def ofYamlText? (s : String) : Option Data :=
  (Yaml.Value.ofText? s).map ofYaml

end SheetTemplate.Data
