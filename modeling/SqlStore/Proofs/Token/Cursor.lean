import SqlStore.Proofs.Token.Sliced

/-!
# The cursor of a scan

A scan over slices keeps a cursor, a position in bytes, and goes on from it in rounds: each round
passes one blank, cuts one token off, or stops. The cursor never stands inside a character, and a
round that does not stop moves it on. So no slice fails, and the rounds come to an end with the
tokens that are found in the list of characters.
-/
namespace SqlStore
open Text Lexeme TokenKind
set_option autoImplicit false

namespace Sliced

/-- How a round ends: the scan stops, or the cursor moves past a blank or past a token. -/
inductive Round where
  | stop (outcome : Except LexError Nat)
  | move (token? : Option Token) (next : Nat)
deriving DecidableEq

def firstMatch? (order : List TokenKind) (rest : String) :
    Except BadSlice (Option (TokenKind × Nat)) :=
  order.findSomeM? fun kind => return (← recognize kind rest).map (kind, ·)

/-- The character at the cursor, or a null character at the end of the text. -/
def peek (text : String) (cursor : Nat) : Except BadSlice Char :=
  return (← sliceFrom text cursor).toList.headD '\x00'

/-- The token at the cursor and the position behind it, or the error that blames the character
there. -/
def cutToken (text : String) (cursor : Nat) :
    Except BadSlice (Except LexError (Token × Nat)) := do
  let rest ← sliceFrom text cursor
  match ← firstMatch? priority rest with
  | some (kind, length) =>
    let lexeme ← slice text cursor (cursor + length)
    return .ok (⟨kind, lexeme, cursor⟩, cursor + length)
  | none => return .error (LexError.starting cursor (← peek text cursor))

/-- Stops at the end of the text, passes a blank, or cuts a token off. -/
def round (text : String) (cursor : Nat) : Except BadSlice Round := do
  if text.utf8ByteSize ≤ cursor then return .stop (.ok text.utf8ByteSize)
  let c ← peek text cursor
  if isBlank c then return .move none (cursor + c.utf8Size)
  match ← cutToken text cursor with
  | .ok (token, next) => return .move (some token) next
  | .error e => return .stop (.error e)

/-- Goes on from the cursor, without a result if the scan has not stopped after `limit` rounds. -/
def scanFrom (text : String) (limit cursor : Nat) : Except BadSlice (Option Scan) :=
  match limit with
  | 0 => .ok none
  | limit + 1 => do
    match ← round text cursor with
    | .stop outcome => return some ⟨[], outcome⟩
    | .move token? next =>
      let behind ← scanFrom text limit next
      return behind.map fun scan => ⟨token?.toList ++ scan.tokens, scan.stop⟩

/-- The cursors that the rounds of a scan come to. -/
inductive Reached (text : String) : Nat → Prop where
  | start : Reached text 0
  | move {cursor next : Nat} {token? : Option Token} (reached : Reached text cursor)
      (moves : round text cursor = .ok (.move token? next)) : Reached text next

/-! ### One round -/

variable {c : Char} {cs : List Char} {kind : TokenKind} {n : Nat}

theorem firstMatch?_ofList (order : List TokenKind) (cs : List Char) :
    firstMatch? order (String.ofList cs) =
      .ok ((TokenKind.firstMatch? order cs).map fun found =>
        (found.1, byteLength (cs.take found.2))) := by
  have hPure : firstMatch? order (String.ofList cs) =
      .ok (order.findSome? fun kind => (kind.matchBytes? cs).map (kind, ·)) := by
    simp only [firstMatch?, recognize_ofList, ok_bind]
    exact List.findSomeM?_pure
  rw [hPure, TokenKind.firstMatch?, List.map_findSome?]
  congr 2
  funext kind
  simp [matchBytes?, Option.map_map, Function.comp_def]

theorem peek_ofList (front cs : List Char) :
    peek (String.ofList (front ++ cs)) (byteLength front) = .ok (cs.headD '\x00') := by
  rw [peek, sliceFrom_ofList, ok_bind, String.toList_ofList]
  rfl

theorem cutToken_of_none (front : List Char) (h : TokenKind.firstMatch? priority cs = none) :
    cutToken (String.ofList (front ++ cs)) (byteLength front) =
      .ok (.error (LexError.starting (byteLength front) (cs.headD '\x00'))) := by
  rw [cutToken, sliceFrom_ofList, ok_bind, firstMatch?_ofList, h, Option.map_none, ok_bind]
  simp only [peek_ofList, ok_bind]
  rfl

theorem cutToken_of_some (front : List Char)
    (h : TokenKind.firstMatch? priority cs = some (kind, n)) :
    cutToken (String.ofList (front ++ cs)) (byteLength front) =
      .ok (.ok (⟨kind, String.ofList (cs.take n), byteLength front⟩,
        byteLength front + byteLength (cs.take n))) := by
  have hSlice := slice_ofList front (cs.take n) (cs.drop n)
  rw [List.append_assoc, List.take_append_drop] at hSlice
  rw [cutToken, sliceFrom_ofList, ok_bind, firstMatch?_ofList, h, Option.map_some, ok_bind]
  simp only [hSlice, ok_bind]
  rfl

theorem round_nil (front : List Char) :
    round (String.ofList (front ++ [])) (byteLength front) =
      .ok (.stop (.ok (byteLength front))) := by
  rw [List.append_nil, round, utf8ByteSize_ofList, if_pos (Nat.le_refl _)]
  rfl

theorem round_cons (front : List Char) (c : Char) (cs : List Char) :
    round (String.ofList (front ++ c :: cs)) (byteLength front) =
      if isBlank c then .ok (.move none (byteLength front + c.utf8Size))
      else do
        match ← cutToken (String.ofList (front ++ c :: cs)) (byteLength front) with
        | .ok (token, next) => return .move (some token) next
        | .error e => return .stop (.error e) := by
  have hInside : ¬ byteLength (front ++ c :: cs) ≤ byteLength front := by
    have := c.utf8Size_pos
    rw [byteLength_append, byteLength_cons]
    omega
  rw [round, utf8ByteSize_ofList, if_neg hInside, peek_ofList, ok_bind, List.headD_cons]
  rfl

theorem round_of_isBlank (front : List Char) (hc : isBlank c = true) :
    round (String.ofList (front ++ c :: cs)) (byteLength front) =
      .ok (.move none (byteLength front + c.utf8Size)) := by
  rw [round_cons, if_pos hc]

theorem round_of_none (front : List Char) (hc : isBlank c = false)
    (h : TokenKind.firstMatch? priority (c :: cs) = none) :
    round (String.ofList (front ++ c :: cs)) (byteLength front) =
      .ok (.stop (.error (LexError.starting (byteLength front) c))) := by
  rw [round_cons, if_neg (by simp [hc]), cutToken_of_none front h, ok_bind]
  rfl

theorem round_of_some (front : List Char) (hc : isBlank c = false)
    (h : TokenKind.firstMatch? priority (c :: cs) = some (kind, n)) :
    round (String.ofList (front ++ c :: cs)) (byteLength front) =
      .ok (.move (some ⟨kind, String.ofList ((c :: cs).take n), byteLength front⟩)
        (byteLength front + byteLength ((c :: cs).take n))) := by
  rw [round_cons, if_neg (by simp [hc]), cutToken_of_some front h, ok_bind]
  rfl

/-! ### All rounds -/

theorem scanFrom_of_stop {text : String} {limit cursor : Nat} {outcome : Except LexError Nat}
    (h : round text cursor = .ok (.stop outcome)) :
    scanFrom text (limit + 1) cursor = .ok (some ⟨[], outcome⟩) := by
  rw [scanFrom, h, ok_bind]
  rfl

theorem scanFrom_of_move {text : String} {limit cursor next : Nat} {token? : Option Token}
    {scan : Scan} (h : round text cursor = .ok (.move token? next))
    (hBehind : scanFrom text limit next = .ok (some scan)) :
    scanFrom text (limit + 1) cursor = .ok (some ⟨token?.toList ++ scan.tokens, scan.stop⟩) := by
  rw [scanFrom, h, ok_bind]
  simp only [hBehind, ok_bind]
  rfl

/-- Each round that moves takes a byte or more, so one round more than there are bytes is enough. -/
theorem scanFrom_eq_walk {offset limit : Nat} (front cs : List Char)
    (hOffset : offset = byteLength front) (hLimit : byteLength cs ≤ limit) :
    scanFrom (String.ofList (front ++ cs)) (limit + 1) offset =
      .ok (some (Scan.walk priority offset cs)) := by
  fun_induction Scan.walk priority offset cs generalizing front limit with
  | case1 offset =>
    rw [hOffset]
    exact scanFrom_of_stop (round_nil front)
  | case2 offset c rest hBlank ih =>
    have hPositive := c.utf8Size_pos
    rw [byteLength_cons] at hLimit
    obtain ⟨limit, rfl⟩ := Nat.exists_eq_succ_of_ne_zero (n := limit) (by omega)
    have hBehind := @ih limit (front ++ [c]) (by simp [hOffset]) (by omega)
    rw [List.append_assoc, List.singleton_append] at hBehind
    have hRound := @round_of_isBlank c rest front hBlank
    rw [← hOffset] at hRound
    exact scanFrom_of_move hRound hBehind
  | case3 offset c rest hBlank hMatch =>
    rw [hOffset]
    exact scanFrom_of_stop (round_of_none front (by simpa using hBlank) hMatch)
  | case4 offset c rest hBlank kind n hMatch lexeme =>
    rename_i ih
    have hPositive := byteLength_take_pos (matchLength?_of_firstMatch? hMatch).2
    have hParts := byteLength_take_add_drop n (c :: rest)
    obtain ⟨limit, rfl⟩ := Nat.exists_eq_succ_of_ne_zero (n := limit) (by omega)
    have hBehind := @ih limit (front ++ lexeme) (by simp [hOffset]) (by omega)
    rw [List.append_assoc, List.take_append_drop] at hBehind
    have hRound := round_of_some front (by simpa using hBlank) hMatch
    rw [← hOffset] at hRound
    exact scanFrom_of_move hRound hBehind

/-! ### Cursors that a scan comes to -/

/-- The position lies behind a piece that comes after the front and has a byte or more. -/
def Takes (front cs : List Char) (next : Nat) : Prop :=
  ∃ piece back, cs = piece ++ back ∧ 0 < byteLength piece ∧
    next = byteLength front + byteLength piece

theorem takes_of_firstMatch? {front : List Char}
    (h : TokenKind.firstMatch? priority cs = some (kind, n)) :
    Takes front cs (byteLength front + byteLength (cs.take n)) :=
  ⟨_, _, (List.take_append_drop n cs).symm, byteLength_take_pos (matchLength?_of_firstMatch? h).2,
    rfl⟩

theorem Takes.inside {front : List Char} {next : Nat} (h : Takes front cs next) :
    byteLength front < next ∧ next ≤ (String.ofList (front ++ cs)).utf8ByteSize := by
  obtain ⟨piece, back, rfl, hPositive, rfl⟩ := h
  rw [utf8ByteSize_ofList, byteLength_append, byteLength_append]
  omega

theorem Takes.isValid {front : List Char} {next : Nat} (h : Takes front cs next) :
    String.Pos.Raw.IsValid (String.ofList (front ++ cs)) ⟨next⟩ := by
  obtain ⟨piece, back, rfl, -, rfl⟩ := h
  rw [← byteLength_append]
  exact isValid_byteLength (String.toList_ofList.trans (List.append_assoc ..).symm)

theorem exists_cutToken (front cs : List Char) :
    ∃ outcome, cutToken (String.ofList (front ++ cs)) (byteLength front) = .ok outcome ∧
      ∀ {token : Token} {next : Nat}, outcome = .ok (token, next) → Takes front cs next := by
  cases hMatch : TokenKind.firstMatch? priority cs with
  | none => exact ⟨_, cutToken_of_none front hMatch, nofun⟩
  | some found =>
    refine ⟨_, cutToken_of_some front hMatch, ?_⟩
    rintro _ _ ⟨⟩
    exact takes_of_firstMatch? hMatch

theorem exists_round (front cs : List Char) :
    ∃ outcome, round (String.ofList (front ++ cs)) (byteLength front) = .ok outcome ∧
      ∀ {token? : Option Token} {next : Nat}, outcome = .move token? next →
        Takes front cs next := by
  cases cs with
  | nil => exact ⟨_, round_nil front, nofun⟩
  | cons c cs =>
    cases hBlank : isBlank c with
    | true =>
      refine ⟨_, round_of_isBlank front hBlank, ?_⟩
      rintro _ _ ⟨⟩
      exact ⟨[c], cs, rfl, c.utf8Size_pos, rfl⟩
    | false =>
      cases hMatch : TokenKind.firstMatch? priority (c :: cs) with
      | none => exact ⟨_, round_of_none front hBlank hMatch, nofun⟩
      | some found =>
        refine ⟨_, round_of_some front hBlank hMatch, ?_⟩
        rintro _ _ ⟨⟩
        exact takes_of_firstMatch? hMatch

theorem isValid_of_reached {text : String} {cursor : Nat} (h : Reached text cursor) :
    String.Pos.Raw.IsValid text ⟨cursor⟩ := by
  induction h with
  | start => exact String.Pos.Raw.isValid_zero
  | move reached moves ih =>
    obtain ⟨front, cs, rfl, rfl⟩ := exists_split_of_isValid ih
    obtain ⟨outcome, hRound, hTakes⟩ := exists_round front cs
    exact (hTakes (Except.ok.inj (hRound.symm.trans moves))).isValid

/-- The cursor stands between two characters. No slice is missing there, neither in a recognizer nor
in a round, and what is cut off behind the cursor is a piece of the text with a byte or more. -/
structure SafeAt (text : String) (cursor : Nat) : Prop where
  inside : cursor ≤ text.utf8ByteSize
  boundary : String.Pos.Raw.IsValid text ⟨cursor⟩
  recognizers : ∃ rest, sliceFrom text cursor = .ok rest ∧ ∀ kind : TokenKind,
    recognize kind rest = .ok (kind.matchBytes? rest.toList) ∧
      ∀ {length : Nat}, recognize kind rest = .ok (some length) →
        0 < length ∧ length ≤ rest.utf8ByteSize ∧ String.Pos.Raw.IsValid rest ⟨length⟩
  cuts : ∃ outcome, cutToken text cursor = .ok outcome ∧
    ∀ {token : Token} {next : Nat}, outcome = .ok (token, next) →
      cursor < next ∧ next ≤ text.utf8ByteSize
  rounds : ∃ outcome, round text cursor = .ok outcome ∧
    ∀ {token? : Option Token} {next : Nat}, outcome = .move token? next →
      cursor < next ∧ next ≤ text.utf8ByteSize

theorem safeAt_of_isValid {text : String} {cursor : Nat}
    (h : String.Pos.Raw.IsValid text ⟨cursor⟩) : SafeAt text cursor := by
  obtain ⟨front, cs, rfl, rfl⟩ := exists_split_of_isValid h
  obtain ⟨cut, hCut, hCutTakes⟩ := exists_cutToken front cs
  obtain ⟨outcome, hRound, hRoundTakes⟩ := exists_round front cs
  exact {
    inside := h.le_utf8ByteSize
    boundary := h
    recognizers := ⟨_, sliceFrom_ofList front cs, fun kind =>
      ⟨recognize_eq kind _, inside_of_recognize⟩⟩
    cuts := ⟨cut, hCut, fun hToken => (hCutTakes hToken).inside⟩
    rounds := ⟨outcome, hRound, fun hMove => (hRoundTakes hMove).inside⟩ }

/-- A slice exists exactly between two borders of characters inside the text, and a scan asks for no
others: wherever it comes, it finds the slices it needs and moves on, until it stops with the tokens
of the text. -/
theorem scan_slices_safely (text : String) :
    (∀ (s : String) (start finish : Nat), (∃ piece, slice s start finish = .ok piece) ↔
      start ≤ finish ∧ finish ≤ s.utf8ByteSize ∧ String.Pos.Raw.IsValid s ⟨start⟩ ∧
        String.Pos.Raw.IsValid s ⟨finish⟩) ∧
    (∀ {cursor : Nat}, Reached text cursor → SafeAt text cursor) ∧
    ∀ {limit : Nat}, text.utf8ByteSize < limit →
      scanFrom text limit 0 = .ok (some (Scan.ofText text)) := by
  refine ⟨fun _ _ _ => exists_slice_iff, fun h => safeAt_of_isValid (isValid_of_reached h), ?_⟩
  intro limit hLimit
  obtain ⟨limit, rfl⟩ := Nat.exists_eq_succ_of_ne_zero (n := limit) (by omega)
  have hBytes : byteLength text.toList ≤ limit := by
    rw [utf8ByteSize_eq] at hLimit
    exact Nat.le_of_lt_succ hLimit
  have hScan := scanFrom_eq_walk [] text.toList byteLength_nil.symm hBytes
  rwa [List.nil_append, String.ofList_toList] at hScan

/-- The cursor comes behind a character of two bytes and to a gap of three. -/
theorem scan_slices_safely_compound :
    let text := "'é' NOT\u3000NULL"
    Reached text 5 ∧ SafeAt text 5 ∧ recognize keyword "NOT\u3000NULL" = .ok (some 10) ∧
      scanFrom text 16 0 = .ok (some (Scan.ofText text)) ∧
      (Scan.ofText text).result =
        .ok [⟨stringLiteral, "'é'", 0⟩, ⟨keyword, "NOT\u3000NULL", 5⟩, .endAt 15] := by
  intro text
  have hString : round text 0 = .ok (.move (some ⟨stringLiteral, "'é'", 0⟩) 4) := by
    decide +kernel
  have hBlank : round text 4 = .ok (.move none 5) := by decide +kernel
  have hReached : Reached text 5 := .move (.move .start hString) hBlank
  obtain ⟨-, hSafe, hScan⟩ := scan_slices_safely text
  exact ⟨hReached, hSafe hReached, by decide +kernel, hScan (by decide), by decide +kernel⟩

end Sliced
end SqlStore
