import SqlStore.Token.Basic

/-!
# Lexemes

For each kind of token, how many characters at the front of a text form a lexeme of that kind. A
match takes as much as it can: words end before a character that is no word character, numbers
before one that is no digit. `matchLength?_bounds` says that a match is neither empty nor longer
than the text.
-/
namespace SqlStore
set_option autoImplicit false

namespace Lexeme

def isWordStart (c : Char) : Bool :=
  c.isAlpha || c == '_'

def isWordChar (c : Char) : Bool :=
  c.isAlphanum || c == '_'

def runLength (p : Char → Bool) (cs : List Char) : Nat :=
  (cs.takeWhile p).length

theorem runLength_le (p : Char → Bool) (cs : List Char) : runLength p cs ≤ cs.length :=
  (List.takeWhile_sublist p).length_le

theorem runLength_lt_of_mem {p : Char → Bool} {c : Char} {cs : List Char} (hc : p c = false)
    (h : c ∈ cs) : runLength p cs < cs.length := by
  induction cs with
  | nil => cases h
  | cons d ds ih =>
    unfold runLength at ih ⊢
    rw [List.takeWhile_cons]
    split
    · rename_i hd
      rcases List.mem_cons.mp h with rfl | h
      · simp [hc] at hd
      · exact Nat.succ_lt_succ (ih h)
    · exact Nat.succ_pos _

def word? : List Char → Option Nat
  | c :: cs => if isWordStart c then some (runLength isWordChar cs + 1) else none
  | [] => none

def wordAmong? (choices : List String) (cs : List Char) : Option Nat :=
  (word? cs).filter fun n => choices.contains (String.ofList (cs.take n))

/-- The length of a second word that completes a keyword which starts with the first `head`
characters. -/
def compound? (head : Nat) (cs : List Char) : Option Nat :=
  let gap := runLength Text.isBlank (cs.drop head)
  if gap = 0 then none
  else
    ((word? (cs.drop (head + gap))).map (head + gap + ·)).filter fun n =>
      (Keyword.ofChars? (cs.take n)).isSome

def keyword? (cs : List Char) : Option Nat :=
  (word? cs).bind fun head =>
    if (Keyword.ofChars? (cs.take head)).isSome then some head
    else if Keyword.isCompoundHead (cs.take head) then compound? head cs
    else none

/-- A `d` in a pattern stands for any digit, every other character for itself. -/
def fits : List Char → List Char → Bool
  | [], _ => true
  | _ :: _, [] => false
  | p :: ps, c :: cs => (if p = 'd' then c.isDigit else c == p) && fits ps cs

def datePattern : List Char :=
  ['\'', 'd', 'd', 'd', 'd', '-', 'd', 'd', '-', 'd', 'd', '\'']

def date? (cs : List Char) : Option Nat :=
  if fits datePattern cs then some datePattern.length else none

/-- The length of a point and the digits after it; a point alone has none. -/
def fractionLength : List Char → Nat
  | '.' :: cs => match runLength Char.isDigit cs with
    | 0 => 0
    | digits + 1 => digits + 2
  | _ => 0

def unsigned? (cs : List Char) : Option Nat :=
  match runLength Char.isDigit cs with
  | 0 => none
  | digits + 1 => some (digits + 1 + fractionLength (cs.drop (digits + 1)))

def number? : List Char → Option Nat
  | '-' :: cs => (unsigned? cs).map (· + 1)
  | cs => unsigned? cs

def isUnquoted (c : Char) : Bool :=
  c != '\''

def string? : List Char → Option Nat
  | '\'' :: cs => if '\'' ∈ cs then some (runLength isUnquoted cs + 2) else none
  | _ => none

/-- Longer operators stand before those that they start with. -/
def comparators : List String :=
  ["!=", "<>", "<=", ">=", "<", "=", ">"]

def comparator? (cs : List Char) : Option Nat :=
  (comparators.find? fun op => op.toList.isPrefixOf cs).map String.length

def single? (expected : Char) : List Char → Option Nat
  | c :: _ => if c = expected then some 1 else none
  | [] => none

/-! ### Bounds -/

theorem word?_bounds {cs : List Char} {n : Nat} (h : word? cs = some n) :
    0 < n ∧ n ≤ cs.length := by
  unfold word? at h
  split at h
  · split at h
    · cases h
      exact ⟨Nat.succ_pos _, Nat.succ_le_succ (runLength_le _ _)⟩
    · cases h
  · cases h

theorem wordAmong?_bounds {choices : List String} {cs : List Char} {n : Nat}
    (h : wordAmong? choices cs = some n) : 0 < n ∧ n ≤ cs.length :=
  word?_bounds (Option.filter_eq_some_iff.mp h).1

theorem compound?_bounds {head : Nat} {cs : List Char} {n : Nat} (h : compound? head cs = some n) :
    head < n ∧ n ≤ cs.length := by
  simp only [compound?] at h
  split at h
  · cases h
  · obtain ⟨tail, hTail, rfl⟩ := Option.map_eq_some_iff.mp (Option.filter_eq_some_iff.mp h).1
    have hBounds := word?_bounds hTail
    rw [List.length_drop] at hBounds
    omega

theorem keyword?_bounds {cs : List Char} {n : Nat} (h : keyword? cs = some n) :
    0 < n ∧ n ≤ cs.length := by
  obtain ⟨head, hHead, h⟩ := Option.bind_eq_some_iff.mp h
  have hBounds := word?_bounds hHead
  split at h
  · cases h
    exact hBounds
  · split at h
    · have := compound?_bounds h
      omega
    · cases h

theorem length_le_of_fits {ps cs : List Char} (h : fits ps cs = true) : ps.length ≤ cs.length := by
  induction ps generalizing cs with
  | nil => exact Nat.zero_le _
  | cons p ps ih =>
    cases cs with
    | nil => cases h
    | cons c cs =>
      simp only [fits, Bool.and_eq_true] at h
      exact Nat.succ_le_succ (ih h.2)

theorem date?_bounds {cs : List Char} {n : Nat} (h : date? cs = some n) :
    0 < n ∧ n ≤ cs.length := by
  unfold date? at h
  split at h
  · rename_i hFits
    cases h
    exact ⟨by decide, length_le_of_fits hFits⟩
  · cases h

theorem fractionLength_le (cs : List Char) : fractionLength cs ≤ cs.length := by
  unfold fractionLength
  split
  · rename_i cs
    have := runLength_le Char.isDigit cs
    split
    · exact Nat.zero_le _
    · simp only [List.length_cons]
      omega
  · exact Nat.zero_le _

theorem unsigned?_bounds {cs : List Char} {n : Nat} (h : unsigned? cs = some n) :
    0 < n ∧ n ≤ cs.length := by
  have hRun := runLength_le Char.isDigit cs
  unfold unsigned? at h
  split at h
  · cases h
  · rename_i digits hDigits
    cases h
    have := fractionLength_le (cs.drop (digits + 1))
    rw [List.length_drop] at this
    omega

theorem number?_bounds {cs : List Char} {n : Nat} (h : number? cs = some n) :
    0 < n ∧ n ≤ cs.length := by
  unfold number? at h
  split at h
  · obtain ⟨m, hm, rfl⟩ := Option.map_eq_some_iff.mp h
    have := unsigned?_bounds hm
    simp only [List.length_cons]
    omega
  · exact unsigned?_bounds h

theorem string?_bounds {cs : List Char} {n : Nat} (h : string? cs = some n) :
    0 < n ∧ n ≤ cs.length := by
  unfold string? at h
  split at h
  · rename_i cs
    split at h
    · rename_i hMem
      cases h
      have := runLength_lt_of_mem (by decide : isUnquoted '\'' = false) hMem
      simp only [List.length_cons]
      omega
    · cases h
  · cases h

theorem comparator?_bounds {cs : List Char} {n : Nat} (h : comparator? cs = some n) :
    0 < n ∧ n ≤ cs.length := by
  obtain ⟨op, hFind, rfl⟩ := Option.map_eq_some_iff.mp h
  have hPositive : ∀ op ∈ comparators, 0 < op.length := by decide
  refine ⟨hPositive op (List.mem_of_find?_eq_some hFind), ?_⟩
  have hFront : op.toList.isPrefixOf cs = true := by simpa using List.find?_some hFind
  rw [← String.length_toList]
  exact (List.isPrefixOf_iff_prefix.mp hFront).length_le

theorem single?_bounds {expected : Char} {cs : List Char} {n : Nat}
    (h : single? expected cs = some n) : 0 < n ∧ n ≤ cs.length := by
  unfold single? at h
  split at h
  · split at h
    · cases h
      simp
    · cases h
  · cases h

end Lexeme

namespace TokenKind

open Lexeme in
def matchLength? : TokenKind → List Char → Option Nat
  | keyword => keyword?
  | identifier => word?
  | stringLiteral => string?
  | numberLiteral => number?
  | booleanLiteral => wordAmong? ["TRUE", "FALSE"]
  | dateLiteral => date?
  | nullLiteral => wordAmong? ["NULL"]
  | comparator => comparator?
  | connective => wordAmong? ["AND", "OR"]
  | comma => single? ','
  | parenOpen => single? '('
  | parenClose => single? ')'
  | terminator => single? ';'
  | endOfInput => fun _ => none

open Lexeme in
theorem matchLength?_bounds {kind : TokenKind} {cs : List Char} {n : Nat}
    (h : kind.matchLength? cs = some n) : 0 < n ∧ n ≤ cs.length := by
  cases kind with
  | keyword => exact keyword?_bounds h
  | identifier => exact word?_bounds h
  | stringLiteral => exact string?_bounds h
  | numberLiteral => exact number?_bounds h
  | booleanLiteral | nullLiteral | connective => exact wordAmong?_bounds h
  | dateLiteral => exact date?_bounds h
  | comparator => exact comparator?_bounds h
  | comma | parenOpen | parenClose | terminator => exact single?_bounds h
  | endOfInput => cases h

/-- The kinds in the order in which they are tried: the first that matches classifies a lexeme. So
the reserved words stand before identifiers and dates before strings. -/
def priority : List TokenKind :=
  [keyword, booleanLiteral, dateLiteral, numberLiteral, stringLiteral, comparator, connective,
   comma, parenOpen, parenClose, nullLiteral, terminator, identifier]

def firstMatch? (order : List TokenKind) (cs : List Char) : Option (TokenKind × Nat) :=
  order.findSome? fun kind => (kind.matchLength? cs).map (kind, ·)

theorem matchLength?_of_firstMatch? {order : List TokenKind} {cs : List Char} {kind : TokenKind}
    {n : Nat} (h : firstMatch? order cs = some (kind, n)) :
    kind ∈ order ∧ kind.matchLength? cs = some n := by
  obtain ⟨k, hk, hMatch⟩ := List.exists_of_findSome?_eq_some h
  obtain ⟨m, hm, hPair⟩ := Option.map_eq_some_iff.mp hMatch
  cases hPair
  exact ⟨hk, hm⟩

theorem firstMatch?_bounds {order : List TokenKind} {cs : List Char} {kind : TokenKind} {n : Nat}
    (h : firstMatch? order cs = some (kind, n)) : 0 < n ∧ n ≤ cs.length :=
  matchLength?_bounds (matchLength?_of_firstMatch? h).2

end TokenKind
end SqlStore
