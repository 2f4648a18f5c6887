/-!
# JSON values

A JSON value in memory: objects keep the order of their members, and a number is its text.
-/

namespace Lib

/-- A JSON value. -/
inductive Value
  | null
  | bool (b : Bool)
  | number (text : String)
  | string (s : String)
  | array (items : List Value)
  | object (members : List (String × Value))

namespace Value

/-- The member with a key. -/
def get (record : Value) (key : String) : Option Value :=
  match record with
  | object members => (members.find? (·.1 = key)).map (·.2)
  | _ => none

/-- The text of a string. -/
def asStr : Value → Option String
  | string s => some s
  | _ => none

def insertMember (key : String) (value : Value) : List (String × Value) → List (String × Value)
  | [] => [(key, value)]
  | (k, v) :: members =>
    if k = key then (key, value) :: members else (k, v) :: insertMember key value members

/-- `insert` on an object; another value stays. -/
def insert (record : Value) (key : String) (value : Value) : Value :=
  match record with
  | object members => object (insertMember key value members)
  | other => other

def orInsert (record : Value) (key : String) (value : Value) : Value :=
  match record with
  | object members =>
    if members.any (·.1 = key) then object members else object (members ++ [(key, value)])
  | other => other

/-- The value is an object. -/
def IsObject : Value → Prop
  | object _ => True
  | _ => False

theorem get_insert {key : String} {value record : Value} (h : record.IsObject) :
    (record.insert key value).get key = some value := by
  cases record with
  | object members =>
    have hfind : ((insertMember key value members).find? (·.1 = key)).map (·.2) = some value := by
      clear h
      induction members with
      | nil => simp [insertMember]
      | cons m members ih =>
        by_cases hkey : m.1 = key
        · simp [insertMember, hkey]
        · rw [insertMember, if_neg hkey, List.find?_cons_of_neg (by simpa using hkey)]
          exact ih
    exact hfind
  | _ => exact h.elim

end Value

end Lib
