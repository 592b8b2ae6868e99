import DqlScan.Json.Read
import DqlScan.Result.Basic

/-!
# Stored results

A result that is read back from JSON. Only its shape is checked: the fields hold whatever value
they had. A text stands for the list of its characters and an object for the list of its names.
A field of a query that nests deep can be read and yet not be written again.
-/

namespace DqlScan

structure StoredQuery where
  text : Json
  file : Json
  line : Json
  column : Json

structure StoredResult where
  queries : List StoredQuery
  filesScanned : Json
  unreadable : List Json

inductive StoredFault where
  | json (fault : Json.Fault)
  | notObject (value : Json)
  | notIterable (value : Json)
  | queryNotObject (value : Json)
  | unexpectedField (name : Text)
  /-- The one name that no field can have. -/
  | reservedField
  /-- The missing fields in order. -/
  | missingFields (names : List Text)

/-! ### Messages -/

/-- The kind of a value, as messages name it. -/
def Json.kind : Json → Text
  | .null => "NoneType".toList
  | .bool _ => "bool".toList
  | .int _ => "int".toList
  | .double _ => "float".toList
  | .str _ => "str".toList
  | .arr _ => "list".toList
  | .obj _ => "dict".toList

namespace StoredFault

/-- Names in a row, with `and` before the last. -/
def enumerated : List Text → Text
  | [] => []
  | [a] => a
  | [a, b] => a ++ " and ".toList ++ b
  | names =>
    List.intercalate ", ".toList names.dropLast ++ ", and ".toList ++ names.getLast?.getD []

def message : StoredFault → Text
  | .json fault => fault.message
  | .notObject value => "'".toList ++ value.kind ++ "' object has no attribute 'get'".toList
  | .notIterable value => "'".toList ++ value.kind ++ "' object is not iterable".toList
  | .queryNotObject value =>
    "dql_format.core.scanner.models.DqlCommand()".toList ++
      " argument after ** must be a mapping, not ".toList ++ value.kind
  | .unexpectedField name =>
    "DqlCommand.__init__() got an unexpected keyword argument '".toList ++ name ++ "'".toList
  | .reservedField => "DqlCommand.__init__() got multiple values for argument 'self'".toList
  | .missingFields names =>
    "DqlCommand.__init__() missing ".toList ++ Text.ofNat names.length ++
      " required positional argument".toList ++ (if names.length = 1 then [] else ['s']) ++
      ": ".toList ++ enumerated (names.map fun name => "'".toList ++ name ++ "'".toList)

end StoredFault

/-! ### Reading -/

def Json.items : Json → Except StoredFault (List Json)
  | .arr items => .ok items
  | .str t => .ok (t.map fun c => .str [c])
  | .obj members => .ok (members.map fun m => .str m.1)
  | value => .error (.notIterable value)

namespace StoredQuery

def required : List Text := ["command".toList, "file_path".toList, "line_number".toList]

def optional : Text := "column_number".toList

def reserved : Text := "self".toList

/-- The query of an object. The first name that no field has decides, and only if there is none
the missing fields do. -/
def ofJson : Json → Except StoredFault StoredQuery
  | .obj members =>
    match members.find? fun m => !(optional :: required).contains m.1 with
    | some (name, _) => .error (if name = reserved then .reservedField else .unexpectedField name)
    | none =>
      match Json.member? "command".toList members, Json.member? "file_path".toList members,
        Json.member? "line_number".toList members with
      | some text, some file, some line =>
        .ok ⟨text, file, line, (Json.member? optional members).getD (.int 0)⟩
      | _, _, _ =>
        .error (.missingFields (required.filter fun name => (Json.member? name members).isNone))
  | value => .error (.queryNotObject value)

def json (q : StoredQuery) : Json :=
  .record [("command", q.text), ("file_path", q.file), ("line_number", q.line),
    ("column_number", q.column)]

def ofItems : List Json → Except StoredFault (List StoredQuery)
  | [] => .ok []
  | item :: items => do
    let query ← ofJson item
    let queries ← ofItems items
    return query :: queries

end StoredQuery

namespace StoredResult

/-- The result of a value. A field that is missing is empty, or zero for the number of files. -/
def ofJson : Json → Except StoredFault StoredResult
  | .obj members => do
    let queries ← ((Json.member? "commands".toList members).getD (.arr [])).items
    let queries ← StoredQuery.ofItems queries
    let filesScanned := (Json.member? "files_scanned".toList members).getD (.int 0)
    let unreadable ← ((Json.member? "unreadable_files".toList members).getD (.arr [])).items
    return ⟨queries, filesScanned, unreadable⟩
  | value => .error (.notObject value)

def limits : Json.Limits where
  digits := 4300
  depth := 992

def read (t : Text) : Except StoredFault StoredResult :=
  match Json.read limits t with
  | .error fault => .error (.json fault)
  | .ok value => ofJson value

def json (r : StoredResult) : Json :=
  .record [("commands", .arr (r.queries.map StoredQuery.json)), ("files_scanned", r.filesScanned),
    ("unreadable_files", .arr r.unreadable)]

end StoredResult

/-! ### Writing -/

inductive WriteFault where
  /-- A field of a query nests too deep. -/
  | tooDeep
  deriving DecidableEq

def WriteFault.message : WriteFault → Text
  | .tooDeep => "maximum recursion depth exceeded".toList

/-- How many levels a field of a query may have to be written. A field is copied before it is
written, which takes two steps for each level. -/
def StoredQuery.maxDepth : Nat := 495

def StoredQuery.fields (q : StoredQuery) : List Json := [q.text, q.file, q.line, q.column]

/-- The JSON text of a result, unless a field of a query nests too deep. -/
def StoredResult.write (r : StoredResult) : Except WriteFault Text :=
  if r.queries.all fun q => q.fields.all fun field => field.depth ≤ StoredQuery.maxDepth then
    .ok r.json.write
  else .error .tooDeep

def Query.stored (q : Query) : StoredQuery := ⟨.str q.text, .str q.file, .int q.line, .int q.column⟩

def ScanResult.stored (r : ScanResult) : StoredResult :=
  ⟨r.queries.map Query.stored, .int r.filesScanned, r.unreadable.map .str⟩

theorem Query.json_stored (q : Query) : q.stored.json = q.json := rfl

theorem ScanResult.json_stored (r : ScanResult) : r.stored.json = r.json := by
  simp [stored, json, StoredResult.json, Json.texts, Function.comp_def, Query.json_stored]

end DqlScan
