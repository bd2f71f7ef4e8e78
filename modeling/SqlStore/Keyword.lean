import SqlStore.Text.Blank

/-!
# Keywords

The reserved words of the language, in upper case only. Two of them, `NOT NULL` and `PRIMARY KEY`,
consist of two words, between which any blank characters may stand: a text is read as a keyword
after its words have been collapsed.
-/
namespace SqlStore
set_option autoImplicit false

inductive Keyword where
  | select | «from» | «where» | insert | into | values | update | set | delete | create | drop
  | table | database
  | notNull | primaryKey | unique | check | default
  | bool | int | float | date | char | varchar
deriving DecidableEq

namespace Keyword

def spelling : Keyword → String
  | select => "SELECT"
  | «from» => "FROM"
  | «where» => "WHERE"
  | insert => "INSERT"
  | into => "INTO"
  | values => "VALUES"
  | update => "UPDATE"
  | set => "SET"
  | delete => "DELETE"
  | create => "CREATE"
  | drop => "DROP"
  | table => "TABLE"
  | database => "DATABASE"
  | notNull => "NOT NULL"
  | primaryKey => "PRIMARY KEY"
  | unique => "UNIQUE"
  | check => "CHECK"
  | default => "DEFAULT"
  | bool => "BOOL"
  | int => "INT"
  | float => "FLOAT"
  | date => "DATE"
  | char => "CHAR"
  | varchar => "VARCHAR"

def all : List Keyword :=
  [select, «from», «where», insert, into, values, update, set, delete, create, drop, table,
   database, notNull, primaryKey, unique, check, default, bool, int, float, date, char, varchar]

theorem mem_all (k : Keyword) : k ∈ all := by
  cases k <;> decide

def words (k : Keyword) : List (List Char) :=
  Text.words k.spelling.toList

/-- The table in which spellings are looked up. -/
def entries : List (String × Keyword) :=
  [("SELECT", select), ("FROM", «from»), ("WHERE", «where»), ("INSERT", insert), ("INTO", into),
   ("VALUES", values), ("UPDATE", update), ("SET", set), ("DELETE", delete), ("CREATE", create),
   ("DROP", drop), ("TABLE", table), ("DATABASE", database), ("NOT NULL", notNull),
   ("PRIMARY KEY", primaryKey), ("UNIQUE", unique), ("CHECK", check), ("DEFAULT", default),
   ("BOOL", bool), ("INT", int), ("FLOAT", float), ("DATE", date), ("CHAR", char),
   ("VARCHAR", varchar)]

def ofSpelling? (text : List Char) : Option Keyword :=
  (entries.find? fun entry => entry.1.toList = text).map Prod.snd

theorem ofSpelling?_spelling (k : Keyword) : ofSpelling? k.spelling.toList = some k := by
  cases k <;> decide +kernel

theorem ofSpelling?_eq_some_iff {text : List Char} {k : Keyword} :
    ofSpelling? text = some k ↔ k.spelling.toList = text := by
  constructor
  · intro h
    have hSpelling : ∀ entry ∈ entries, entry.2.spelling = entry.1 := by decide
    obtain ⟨entry, hEntry, rfl⟩ := Option.map_eq_some_iff.mp h
    rw [hSpelling entry (List.mem_of_find?_eq_some hEntry)]
    simpa using List.find?_some hEntry
  · rintro rfl
    exact ofSpelling?_spelling k

theorem spelling_injective {k l : Keyword} (h : k.spelling = l.spelling) : k = l := by
  rw [← Option.some_inj, ← ofSpelling?_spelling k, h, ofSpelling?_spelling l]

def ofChars? (text : List Char) : Option Keyword :=
  ofSpelling? (Text.collapse text)

def ofText? (text : String) : Option Keyword :=
  ofChars? text.toList

/-- The first words of the keywords of two words. -/
def compoundHeads : List String :=
  ["NOT", "PRIMARY"]

def isCompoundHead (word : List Char) : Bool :=
  compoundHeads.contains (String.ofList word)

end Keyword
end SqlStore
