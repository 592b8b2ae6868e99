import DqlScan.Json.Double

/-!
# JSON values

Numbers are integers of any size or doubles. The members of an object are in order, and no two
have the same name.
-/

namespace DqlScan

inductive Json where
  | null
  | bool (b : Bool)
  | int (n : Int)
  | double (x : Double)
  | str (t : Text)
  | arr (items : List Json)
  | obj (members : List (Text × Json))

namespace Json

/-- An object whose members are given with names of the program's own. -/
def record (members : List (String × Json)) : Json :=
  .obj (members.map fun (name, value) => (name.toList, value))

/-- Sets a member: in its place if there is one of that name, else at the end. -/
def setMember (name : Text) (value : Json) : List (Text × Json) → List (Text × Json)
  | [] => [(name, value)]
  | (n, v) :: rest => if n = name then (n, value) :: rest else (n, v) :: setMember name value rest

def member? (name : Text) : List (Text × Json) → Option Json
  | [] => none
  | (n, v) :: rest => if n = name then some v else member? name rest

mutual

/-- How many levels of items and members a value has: none if it is empty or holds no others. -/
def depth : Json → Nat
  | .arr items => itemsDepth items
  | .obj members => membersDepth members
  | .null | .bool _ | .int _ | .double _ | .str _ => 0

def itemsDepth : List Json → Nat
  | [] => 0
  | item :: items => max (item.depth + 1) (itemsDepth items)

def membersDepth : List (Text × Json) → Nat
  | [] => 0
  | (_, value) :: members => max (value.depth + 1) (membersDepth members)

end

theorem member?_setMember (name : Text) (value : Json) (members : List (Text × Json)) (n : Text) :
    member? n (setMember name value members) =
      if name = n then some value else member? n members := by
  induction members with
  | nil => rfl
  | cons m rest ih =>
    by_cases hm : m.1 = name <;> by_cases hn : name = n <;> by_cases hk : m.1 = n <;>
      simp_all [setMember, member?]

/-! ### Writing

Each item and member stands on a line of its own, indented by two spaces for each level. Of a
string, quotation marks, backslashes and control characters below U+0020 are escaped. A value is
written in front of the text that follows it, so the text is built once, from its end.
-/

def escape (c : Char) : Text :=
  if c = '"' then ['\\', '"']
  else if c = '\\' then ['\\', '\\']
  else if c = '\n' then ['\\', 'n']
  else if c = '\r' then ['\\', 'r']
  else if c = '\t' then ['\\', 't']
  else if c = '\x08' then ['\\', 'b']
  else if c = '\x0c' then ['\\', 'f']
  else if c < ' ' then ['\\', 'u'] ++ Text.hex 4 c.toNat
  else [c]

def writeString (t : Text) : Text := '"' :: t.flatMap escape ++ ['"']

def newLine (level : Nat) : Text := '\n' :: List.replicate (2 * level) ' '

mutual

/-- Writes a value that stands at a level, in front of the text that follows it. -/
def writeAt (level : Nat) (v : Json) (rest : Text) : Text :=
  match v with
  | .null => "null".toList ++ rest
  | .bool b => (if b then "true" else "false").toList ++ rest
  | .int n => Text.ofInt n ++ rest
  | .double x => x.text ++ rest
  | .str t => writeString t ++ rest
  | .arr [] => "[]".toList ++ rest
  | .arr (item :: items) =>
    '[' :: (newLine (level + 1) ++ writeAt (level + 1) item (writeItems (level + 1) items
      (newLine level ++ ']' :: rest)))
  | .obj [] => '\x7b' :: '\x7d' :: rest
  | .obj ((name, value) :: members) =>
    '\x7b' :: (newLine (level + 1) ++ (writeString name ++ ':' :: ' ' ::
      writeAt (level + 1) value (writeMembers (level + 1) members
        (newLine level ++ '\x7d' :: rest))))

def writeItems (level : Nat) (items : List Json) (rest : Text) : Text :=
  match items with
  | [] => rest
  | item :: items =>
    ',' :: (newLine level ++ writeAt level item (writeItems level items rest))

def writeMembers (level : Nat) (members : List (Text × Json)) (rest : Text) : Text :=
  match members with
  | [] => rest
  | (name, value) :: members =>
    ',' :: (newLine level ++ (writeString name ++ ':' :: ' ' ::
      writeAt level value (writeMembers level members rest)))

end

def write (v : Json) : Text := writeAt 0 v []

end Json

end DqlScan
