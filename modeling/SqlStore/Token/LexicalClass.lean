import SqlStore.Token.Lexeme

/-!
# Lexical classes

Which texts are lexemes of a kind, said without scanning: words, numbers, dates, strings and signs by
their shape, and identifiers as the words that are not reserved. A keyword of two words may have any
blank characters, but at least one, between them.
-/
namespace SqlStore
set_option autoImplicit false

namespace Lexeme

def IsBlankRun (gap : List Char) : Prop :=
  gap ≠ [] ∧ ∀ c ∈ gap, Text.isBlank c = true

def IsWord : List Char → Prop
  | [] => False
  | c :: cs => isWordStart c = true ∧ ∀ d ∈ cs, isWordChar d = true

instance : (word : List Char) → Decidable (IsWord word)
  | [] => isFalse id
  | c :: cs => decidable_of_iff (isWordStart c = true ∧ cs.all isWordChar = true)
      (and_congr_right' List.all_eq_true)

inductive IsKeyword : List Char → Prop where
  | single {keyword : Keyword} {word : List Char} (words : keyword.words = [word]) : IsKeyword word
  | compound {keyword : Keyword} {head tail gap : List Char} (words : keyword.words = [head, tail])
      (blank : IsBlankRun gap) : IsKeyword (head ++ gap ++ tail)

def truthWords : List (List Char) :=
  ["TRUE".toList, "FALSE".toList]

def nullWords : List (List Char) :=
  ["NULL".toList]

def connectiveWords : List (List Char) :=
  ["AND".toList, "OR".toList]

/-- The heads of keywords of two words are not reserved. -/
def IsReserved (word : List Char) : Prop :=
  (∃ keyword ∈ Keyword.all, keyword.words = [word]) ∨
    word ∈ truthWords ∨ word ∈ nullWords ∨ word ∈ connectiveWords

instance (word : List Char) : Decidable (IsReserved word) :=
  inferInstanceAs (Decidable (_ ∨ _))

def IsIdentifier (word : List Char) : Prop :=
  IsWord word ∧ ¬ IsReserved word

instance (word : List Char) : Decidable (IsIdentifier word) :=
  inferInstanceAs (Decidable (_ ∧ _))

def IsDigits (digits : List Char) : Prop :=
  digits ≠ [] ∧ ∀ c ∈ digits, c.isDigit = true

inductive IsUnsigned : List Char → Prop where
  | whole {digits : List Char} (isDigits : IsDigits digits) : IsUnsigned digits
  | fraction {digits decimals : List Char} (isDigits : IsDigits digits)
      (areDecimals : IsDigits decimals) : IsUnsigned (digits ++ '.' :: decimals)

inductive IsNumber : List Char → Prop where
  | plain {number : List Char} (isUnsigned : IsUnsigned number) : IsNumber number
  | negative {number : List Char} (isUnsigned : IsUnsigned number) : IsNumber ('-' :: number)

def IsDate (date : List Char) : Prop :=
  fits datePattern date = true ∧ date.length = datePattern.length

instance (date : List Char) : Decidable (IsDate date) :=
  inferInstanceAs (Decidable (_ ∧ _))

def IsString (string : List Char) : Prop :=
  ∃ body, string = '\'' :: (body ++ ['\'']) ∧ '\'' ∉ body ∧ ¬ IsDate string

end Lexeme

open Lexeme in
def TokenKind.Class : TokenKind → List Char → Prop
  | keyword => IsKeyword
  | identifier => IsIdentifier
  | stringLiteral => IsString
  | numberLiteral => IsNumber
  | booleanLiteral => (· ∈ truthWords)
  | dateLiteral => IsDate
  | nullLiteral => (· ∈ nullWords)
  | comparator => (String.ofList · ∈ comparators)
  | connective => (· ∈ connectiveWords)
  | comma => (· = [','])
  | parenOpen => (· = ['('])
  | parenClose => (· = [')'])
  | terminator => (· = [';'])
  | endOfInput => fun _ => False

end SqlStore
