import SqlStore.Keyword
import SqlStore.Statement.Condition
import SqlStore.Statement.Size

/-!
# Columns

A column has a name, a type and constraints in the order in which they are written. Only character
types and FLOAT take sizes; a type without sizes leaves them open. The first DEFAULT among the
constraints gives the default value.
-/
namespace SqlStore
set_option autoImplicit false

inductive DataType where
  | bool
  | int
  | float (precision scale : Option Size)
  | date
  | char (length : Option Size)
  | varchar (length : Option Size)
deriving DecidableEq

namespace DataType

def keyword : DataType → Keyword
  | bool => .bool
  | int => .int
  | float _ _ => .float
  | date => .date
  | char _ => .char
  | varchar _ => .varchar

/-- The type of a keyword, with its sizes left open. -/
def ofKeyword? : Keyword → Option DataType
  | .bool => some bool
  | .int => some int
  | .float => some (float none none)
  | .date => some date
  | .char => some (char none)
  | .varchar => some (varchar none)
  | _ => none

theorem keyword_of_ofKeyword? {k : Keyword} {type : DataType} (h : ofKeyword? k = some type) :
    type.keyword = k := by
  cases k <;> cases h <;> rfl

def maxSizes : DataType → Nat
  | bool | int | date => 0
  | char _ | varchar _ => 1
  | float _ _ => 2

/-- The type with its sizes set; a second size counts for FLOAT only. -/
def sized (type : DataType) (first : Size) (second : Option Size) : DataType :=
  match type with
  | bool => bool
  | int => int
  | float _ _ => float (some first) second
  | date => date
  | char _ => char (some first)
  | varchar _ => varchar (some first)

def sizeText : DataType → String
  | char (some n) | varchar (some n) => "(" ++ n.text ++ ")"
  | float (some p) (some s) => "(" ++ p.text ++ ", " ++ s.text ++ ")"
  | float (some p) none => "(" ++ p.text ++ ")"
  | _ => ""

def text (type : DataType) : String :=
  type.keyword.spelling ++ type.sizeText

end DataType

inductive Constraint where
  | notNull
  | primaryKey
  | unique
  | default (value : Value)
  | check (condition : Condition)
deriving DecidableEq

namespace Constraint

def keyword : Constraint → Keyword
  | notNull => .notNull
  | primaryKey => .primaryKey
  | unique => .unique
  | default _ => .default
  | check _ => .check

def text (constraint : Constraint) : String :=
  match constraint with
  | default value => Keyword.default.spelling ++ " " ++ value.text
  | check condition => Keyword.check.spelling ++ " (" ++ condition.text ++ ")"
  | _ => constraint.keyword.spelling

def default? : Constraint → Option Value
  | default value => some value
  | _ => none

end Constraint

structure Column where
  name : String
  type : DataType
  constraints : List Constraint
deriving DecidableEq

namespace Column

def default? (column : Column) : Option Value :=
  column.constraints.findSome? Constraint.default?

def text (column : Column) : String :=
  " ".intercalate (column.name :: column.type.text :: column.constraints.map Constraint.text)

/-- The first column whose name is among the given ones or that of an earlier column. -/
def firstAmong? (seen : List String) : List Column → Option Column
  | [] => none
  | column :: rest =>
    if column.name ∈ seen then some column else firstAmong? (column.name :: seen) rest

/-- The first column that repeats the name of an earlier one. -/
def firstRepeated? (columns : List Column) : Option Column :=
  firstAmong? [] columns

theorem firstAmong?_eq_none_iff {seen : List String} {columns : List Column} :
    firstAmong? seen columns = none ↔
      (columns.map name).Nodup ∧ ∀ column ∈ columns, column.name ∉ seen := by
  induction columns generalizing seen with
  | nil => simp [firstAmong?]
  | cons column rest ih =>
    rw [firstAmong?]
    split
    · rename_i hSeen
      simp [hSeen]
    · rename_i hSeen
      rw [ih]
      simp only [List.map_cons, List.nodup_cons, List.mem_map, List.mem_cons, not_or]
      constructor
      · rintro ⟨hDistinct, hRest⟩
        refine ⟨⟨?_, hDistinct⟩, ?_⟩
        · rintro ⟨other, hOther, hName⟩
          exact (hRest other hOther).1 hName
        · rintro other (rfl | hOther)
          · exact hSeen
          · exact (hRest other hOther).2
      · rintro ⟨⟨hNew, hDistinct⟩, hRest⟩
        refine ⟨hDistinct, fun other hOther => ⟨?_, hRest other (.inr hOther)⟩⟩
        exact fun hName => hNew ⟨other, hOther, hName⟩

theorem firstRepeated?_eq_none_iff {columns : List Column} :
    firstRepeated? columns = none ↔ (columns.map name).Nodup := by
  simp [firstRepeated?, firstAmong?_eq_none_iff]

theorem firstAmong?_eq_some_iff {seen : List String} {columns : List Column} {column : Column} :
    firstAmong? seen columns = some column ↔ ∃ front back, columns = front ++ column :: back ∧
      firstAmong? seen front = none ∧ (column.name ∈ seen ∨ column.name ∈ front.map name) := by
  induction columns generalizing seen with
  | nil => simp [firstAmong?]
  | cons first rest ih =>
    rw [firstAmong?]
    split
    · rename_i hSeen
      constructor
      · rintro ⟨rfl⟩
        exact ⟨[], rest, rfl, rfl, .inl hSeen⟩
      · rintro ⟨front, back, hColumns, hFront, -⟩
        cases front with
        | nil => rw [(List.cons.inj hColumns).1]
        | cons other front =>
          obtain ⟨rfl, -⟩ := List.cons.inj hColumns
          simp [firstAmong?, hSeen] at hFront
    · rename_i hSeen
      rw [ih]
      constructor
      · rintro ⟨front, back, rfl, hFront, hName⟩
        refine ⟨first :: front, back, rfl, by rwa [firstAmong?, if_neg hSeen], ?_⟩
        simpa [or_left_comm, or_assoc] using hName
      · rintro ⟨front, back, hColumns, hFront, hName⟩
        cases front with
        | nil =>
          obtain ⟨rfl, -⟩ := List.cons.inj hColumns
          simp [hSeen] at hName
        | cons other front =>
          obtain ⟨rfl, rfl⟩ := List.cons.inj hColumns
          rw [firstAmong?, if_neg hSeen] at hFront
          exact ⟨front, back, rfl, hFront, by simpa [or_left_comm, or_assoc] using hName⟩

theorem firstRepeated?_eq_some_iff {columns : List Column} {column : Column} :
    firstRepeated? columns = some column ↔ ∃ front back, columns = front ++ column :: back ∧
      (front.map name).Nodup ∧ column.name ∈ front.map name := by
  simp [firstRepeated?, firstAmong?_eq_some_iff, firstAmong?_eq_none_iff]

end Column
end SqlStore
