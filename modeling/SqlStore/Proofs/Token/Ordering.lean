import Mathlib.Data.List.Nodup
import SqlStore.Proofs.Token.Priority
import SqlStore.Token.Scan

/-!
# The order of the kinds

Most kinds of tokens never match at the same place, and the few pairs that do are reserved words
with identifiers and dates with strings. An order in which the kinds are tried decides nothing but
these pairs, so a text has the same tokens, or the same error, in all orders that agree on them.
-/
namespace SqlStore
set_option autoImplicit false

namespace TokenKind

/-- The first kind is meant to be tried before the second one. -/
inductive Overlaps : TokenKind → TokenKind → Prop
  | keyword : Overlaps keyword identifier
  | booleanLiteral : Overlaps booleanLiteral identifier
  | connective : Overlaps connective identifier
  | nullLiteral : Overlaps nullLiteral identifier
  | dateLiteral : Overlaps dateLiteral stringLiteral

theorem overlaps_iff {special general : TokenKind} :
    Overlaps special general ↔ special.genus = general ∧ special ≠ general := by
  constructor
  · rintro (_ | _ | _ | _ | _) <;> decide
  · rintro ⟨rfl, hNe⟩
    cases special
    case keyword => exact .keyword
    case booleanLiteral => exact .booleanLiteral
    case connective => exact .connective
    case nullLiteral => exact .nullLiteral
    case dateLiteral => exact .dateLiteral
    all_goals exact absurd rfl hNe

theorem overlaps_of_matches {k l : TokenKind} {rest : List Char} {m n : Nat}
    (hk : k.matchLength? rest = some m) (hl : l.matchLength? rest = some n) (hNe : k ≠ l) :
    Overlaps k l ∨ Overlaps l k :=
  (genus_of_matches hk hl hNe).imp (fun h => overlaps_iff.mpr ⟨h, hNe⟩)
    fun h => overlaps_iff.mpr ⟨h, hNe.symm⟩

theorem matchLength?_string_of_date {rest : List Char} {n : Nat}
    (h : dateLiteral.matchLength? rest = some n) : stringLiteral.matchLength? rest = some n := by
  obtain ⟨date, back, rfl, rfl, hDate, -⟩ := shape_of_matchLength? h
  exact matchLength?_append_iff.mpr ⟨isQuoted_of_isDate hDate, trivial⟩

/-! ### Orders that agree -/

theorem isPriority_of_perm {order : List TokenKind} (hPerm : order.Perm priority)
    (hBefore : ∀ {special general : TokenKind}, Overlaps special general →
      order.idxOf special < order.idxOf general) : IsPriority order where
  complete kind hEnd := hPerm.mem_iff.mpr (isPriority_priority.complete kind hEnd)
  special := by
    have hNodup : order.Nodup := hPerm.nodup_iff.mpr (by decide)
    refine List.pairwise_iff_getElem.mpr fun i j hi hj hLt hGenus => ?_
    have hIndexI := hNodup.idxOf_getElem i hi
    have hIndexJ := hNodup.idxOf_getElem j hj
    have hNe : order[j] ≠ order[i] := fun hEq => by
      rw [hEq, hIndexI] at hIndexJ
      exact Nat.ne_of_lt hLt hIndexJ
    have hIndex := hBefore (overlaps_iff.mpr ⟨hGenus, hNe⟩)
    rw [hIndexI, hIndexJ] at hIndex
    exact Nat.lt_asymm hLt hIndex

theorem firstMatch?_congr {order others : List TokenKind} (hOrder : IsPriority order)
    (hOthers : IsPriority others) (cs : List Char) :
    firstMatch? order cs = firstMatch? others cs :=
  Option.ext fun ⟨_, _⟩ =>
    (firstMatch?_eq_some_iff hOrder).trans (firstMatch?_eq_some_iff hOthers).symm

end TokenKind

theorem Scan.walk_congr {order others : List TokenKind}
    (h : ∀ cs, TokenKind.firstMatch? order cs = TokenKind.firstMatch? others cs) (offset : Nat)
    (cs : List Char) : walk order offset cs = walk others offset cs := by
  fun_induction walk order offset cs with
  | case1 offset => rw [walk_nil]
  | case2 offset c rest hBlank ih => rw [walk_of_isBlank hBlank, ih]
  | case3 offset c rest hBlank hNone =>
    rw [walk_of_none (by simpa using hBlank) ((h _).symm.trans hNone)]
  | case4 offset c rest hBlank kind n hSome lexeme ih =>
    rw [walk_of_some (by simpa using hBlank) ((h _).symm.trans hSome), ih]

/-- Only special cases match together with their general kinds, so every order of the kinds with the
special cases before the general ones gives the same tokens. -/
theorem tokens_in_any_order :
    (∀ {k l : TokenKind} {rest : List Char} {m n : Nat}, k.matchLength? rest = some m →
      l.matchLength? rest = some n → k ≠ l → k.Overlaps l ∨ l.Overlaps k) ∧
    (∀ {rest : List Char} {n : Nat}, TokenKind.dateLiteral.matchLength? rest = some n →
      TokenKind.stringLiteral.matchLength? rest = some n) ∧
    ∀ {order : List TokenKind}, order.Perm TokenKind.priority →
      (∀ {special general : TokenKind}, special.Overlaps general →
        order.idxOf special < order.idxOf general) →
      ∀ sql : String, (Scan.walk order 0 sql.toList).result = tokenize sql := by
  refine ⟨TokenKind.overlaps_of_matches, TokenKind.matchLength?_string_of_date, ?_⟩
  intro order hPerm hBefore sql
  have hOrder := TokenKind.isPriority_of_perm hPerm hBefore
  rw [Scan.walk_congr (TokenKind.firstMatch?_congr hOrder TokenKind.isPriority_priority)]
  rfl

/-- The kinds backwards, apart from the pairs whose order counts. -/
theorem tokens_in_any_order_sample :
    let order : List TokenKind :=
      [.terminator, .nullLiteral, .parenClose, .parenOpen, .comma, .connective, .comparator,
        .numberLiteral, .dateLiteral, .stringLiteral, .booleanLiteral, .keyword, .identifier]
    let sql := "NOT NULL '2020-02-20'"
    TokenKind.Overlaps .keyword .identifier ∧
      TokenKind.matchLength? .stringLiteral "'2020-02-20'".toList = some 12 ∧
      order.Perm TokenKind.priority ∧
      (∀ {special general : TokenKind}, special.Overlaps general →
        order.idxOf special < order.idxOf general) ∧
      (Scan.walk order 0 sql.toList).result =
        .ok [⟨.keyword, "NOT NULL", 0⟩, ⟨.dateLiteral, "'2020-02-20'", 9⟩, .endAt 21] := by
  intro order sql
  have hPerm : order.Perm TokenKind.priority := by decide
  have hBefore : ∀ {special general : TokenKind}, special.Overlaps general →
      order.idxOf special < order.idxOf general := by
    rintro _ _ (_ | _ | _ | _ | _) <;> decide
  have hKeyword : TokenKind.matchLength? .keyword sql.toList = some 8 := by decide +kernel
  have hIdentifier : TokenKind.matchLength? .identifier sql.toList = some 3 := by decide +kernel
  have hDate : TokenKind.matchLength? .dateLiteral "'2020-02-20'".toList = some 12 := by
    decide +kernel
  obtain ⟨hPairs, hString, hOrders⟩ := tokens_in_any_order
  refine ⟨?_, hString hDate, hPerm, hBefore, (hOrders hPerm hBefore sql).trans (by decide +kernel)⟩
  exact (hPairs hKeyword hIdentifier (by decide)).resolve_right nofun

end SqlStore
