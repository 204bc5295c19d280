import GrammarAudit.Number.Basic
import GrammarAudit.Text.Quoted

/-!
# JSON values

- `Json`: a value; the fields of an object keep their order.
- `Json.setField`, `Json.ofFields`: objects as they are built field by field.
- `Json.display`, `Json.plain`: a value as messages show it.
-/

namespace GrammarAudit

/-- A JSON value. Numbers keep whether they were written as integers. -/
inductive Json where
  | null
  | bool (b : Bool)
  | num (n : Number)
  | str (s : String)
  | list (items : List Json)
  | object (fields : List (String × Json))
deriving Repr, Inhabited

namespace Json

/-! ## Equality -/

mutual

/-- Whether two values are equal. -/
def same : Json → Json → Bool
  | null, null => true
  | bool a, bool b => a == b
  | num a, num b => a = b
  | str a, str b => a == b
  | list a, list b => sameItems a b
  | object a, object b => sameFields a b
  | _, _ => false

/-- Whether two lists of values are equal. -/
def sameItems : List Json → List Json → Bool
  | [], [] => true
  | a :: as, b :: bs => same a b && sameItems as bs
  | _, _ => false

/-- Whether two lists of fields are equal. -/
def sameFields : List (String × Json) → List (String × Json) → Bool
  | [], [] => true
  | (k, a) :: as, (l, b) :: bs => k == l && same a b && sameFields as bs
  | _, _ => false

end

mutual

theorem same_iff : ∀ {a b : Json}, same a b = true ↔ a = b
  | null, b => by cases b <;> simp [same]
  | bool _, b => by cases b <;> simp [same]
  | num _, b => by cases b <;> simp [same]
  | str _, b => by cases b <;> simp [same]
  | list _, b => by cases b <;> simp [same, sameItems_iff]
  | object _, b => by cases b <;> simp [same, sameFields_iff]

theorem sameItems_iff : ∀ {a b : List Json}, sameItems a b = true ↔ a = b
  | [], b => by cases b <;> simp [sameItems]
  | _ :: _, b => by cases b <;> simp [sameItems, same_iff, sameItems_iff]

theorem sameFields_iff : ∀ {a b : List (String × Json)}, sameFields a b = true ↔ a = b
  | [], b => by cases b <;> simp [sameFields]
  | (_, _) :: _, b => by
    rcases b with _ | ⟨⟨_, _⟩, _⟩ <;> simp [sameFields, same_iff, sameFields_iff]

end

instance : DecidableEq Json := fun _ _ => decidable_of_iff _ same_iff

/-! ## Objects -/

/-- Sets a field: a field of that name keeps its place, a new one comes last. -/
def setField {α : Type} (fields : List (String × α)) (name : String) (value : α) :
    List (String × α) :=
  match fields with
  | [] => [(name, value)]
  | (k, v) :: rest =>
    if k = name then (k, value) :: rest else (k, v) :: setField rest name value

/-- The object of a list of fields; of several of one name the last counts. -/
def ofFields (fields : List (String × Json)) : Json :=
  object (fields.foldl (fun set (k, v) => setField set k v) [])

/-- The value of a field. -/
def field? (fields : List (String × Json)) (name : String) : Option Json :=
  fields.lookup name

/-- The integer as a value. -/
def int (n : Int) : Json :=
  num (.int n)

/-! ## Display -/

/-- Texts between brackets, with commas. -/
def bracketed (left right : String) (items : List String) : String :=
  left ++ ", ".intercalate items ++ right

mutual

/-- A value as messages show it, texts in quotes. -/
def display : Json → String
  | null => "None"
  | bool b => if b then "True" else "False"
  | num n => n.text
  | str s => Text.quote s
  | list items => bracketed "[" "]" (displayItems items)
  | object fields => bracketed "\x7b" "\x7d" (displayFields fields)

/-- The items of a list as messages show them. -/
def displayItems : List Json → List String
  | [] => []
  | item :: rest => item.display :: displayItems rest

/-- The fields of an object as messages show them. -/
def displayFields : List (String × Json) → List String
  | [] => []
  | (k, v) :: rest => (Text.quote k ++ ": " ++ v.display) :: displayFields rest

end

/-- A value as a text: a text stands for itself, anything else is displayed. -/
def plain : Json → String
  | str s => s
  | value => value.display

/-- Whether a value counts as true: all but null, false, zero and what is empty. -/
def isTruthy : Json → Bool
  | null => false
  | bool b => b
  | num (.int n) => n ≠ 0
  | num (.real x) => !x.isZero
  | str s => s ≠ ""
  | list items => !items.isEmpty
  | object fields => !fields.isEmpty

end Json

end GrammarAudit
