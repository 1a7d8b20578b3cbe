import RecordMapper.Schema.Mapping

/-!
# Mappings in diagnostics

The facts of each column of a mapping, in the order of the mapping.
-/

namespace RecordMapper

def DataType.diagnostic : DataType → String
  | .bool => "Bool"
  | .int8 => "Int8"
  | .int16 => "Int16"
  | .int32 => "Int32"
  | .uint8 => "UInt8"
  | .uint16 => "UInt16"
  | .uint32 => "UInt32"
  | .int64 => "Int64"
  | .float32 => "Float32"
  | .float64 => "Float64"
  | .decimal => "Decimal"
  | .text => "Text"
  | .blob => "Blob"
  | .duration => "Duration"
  | .datetime => "DateTime"
  | .offsetDatetime => "DateTimeOffset"
  | .enumeration => "Enum"
  | .uuid => "Uuid"
  | .unsupported name => "Unsupported(" ++ diagnosticText name ++ ")"

/-- The facts of a column; that more is left out is shown by two points. -/
def Column.diagnostic (c : Column) : String :=
  "Column \x7b property_name: " ++ diagnosticText c.property ++ ", name: " ++ diagnosticText c.name
    ++ ", data_type: " ++ c.dataType.diagnostic ++ ", nullable: " ++ diagnosticBool c.nullable
    ++ ", is_pk: " ++ diagnosticBool c.isKey ++ ", is_auto_inc: " ++ diagnosticBool c.autoIncrement
    ++ ", is_auto_guid: " ++ diagnosticBool c.autoIdentifier ++ ", .. \x7d"

def Mapping.diagnostic (m : Mapping) : String :=
  "TableMapping \x7b type_name: " ++ diagnosticText m.typeName ++ ", table_name: "
    ++ diagnosticText m.table ++ ", columns: " ++ listed "[" (m.columns.map Column.diagnostic) "]"
    ++ ", has_auto_inc_pk: " ++ diagnosticBool m.hasAutoIncrementKey ++ ", .. \x7d"

end RecordMapper
