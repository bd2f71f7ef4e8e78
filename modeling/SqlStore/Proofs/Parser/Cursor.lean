import Mathlib.Data.List.TakeWhile
import SqlStore.Proofs.Parser.Trace

/-!
# Parsers in use

A parser may be asked for statements and for scripts in any order and as often as one likes, also
after errors. Every call moves it over some of its tokens, so it stays before the first end mark of
its list. That is the invariant here, and the traces of the readers keep it.
-/
namespace SqlStore
set_option autoImplicit false

/-- How an error names the keyword of a statement that cannot be read. -/
def Token.statementWord (t : Token) : String :=
  match Keyword.ofText? t.lexeme with
  | some keyword => keyword.spelling
  | none => t.lexeme

namespace Parser
open Grammar

/-! ### Tokens of a parser -/

/-- The tokens with an end mark after them, unless the last one is an end mark. -/
def withEnd (tokens : List Token) : List Token :=
  if tokens.getLast?.any isEnd then tokens else tokens ++ [Token.endAt (endOffset tokens)]

variable {tokens : List Token}

theorem withEnd_eq (tokens : List Token) :
    ∃ back, withEnd tokens = (ofTokens tokens).rest ++ (ofTokens tokens).stop :: back := by
  have hParts : tokens.takeWhile (!isEnd ·) ++ tokens.dropWhile (!isEnd ·) = tokens :=
    List.takeWhile_append_dropWhile
  unfold ofTokens withEnd
  dsimp only
  cases hFind : tokens.find? isEnd with
  | none =>
    have hNone := List.find?_eq_none.mp hFind
    have hAll : tokens.takeWhile (!isEnd ·) = tokens :=
      List.takeWhile_eq_self_iff.mpr fun t ht => by simpa using hNone t ht
    have hLast : tokens.getLast?.any isEnd = false := by
      cases h : tokens.getLast? with
      | none => rfl
      | some t => simpa using hNone t (List.mem_of_getLast? h)
    exact ⟨[], by simp [hAll, hLast]⟩
  | some t =>
    rw [List.find?_eq_head?_dropWhile_not] at hFind
    obtain ⟨us, hDrop⟩ := List.head?_eq_some_iff.mp hFind
    rw [hDrop] at hParts
    rw [Option.getD_some]
    split
    · exact ⟨us, hParts.symm⟩
    · refine ⟨us ++ [Token.endAt (endOffset tokens)], ?_⟩
      rw [← List.cons_append, ← List.append_assoc, hParts]

theorem findIdx_withEnd (tokens : List Token) :
    (withEnd tokens).findIdx isEnd = (ofTokens tokens).rest.length := by
  obtain ⟨back, hTokens⟩ := withEnd_eq tokens
  have hStop : isEnd (ofTokens tokens).stop = true := by
    simp [isEnd, (ready_ofTokens tokens).stop]
  have hRest : (ofTokens tokens).rest.findIdx isEnd = (ofTokens tokens).rest.length :=
    List.findIdx_eq_length.mpr fun t ht => by
      simpa [ofTokens] using List.mem_takeWhile_imp ht
  rw [hTokens, List.findIdx_append, hRest, List.findIdx_cons]
  simp [hStop]

/-! ### Lengths of forms -/

theorem typeForm_ne_nil {ts : List Token} {type : DataType} (h : TypeForm ts type) : ts ≠ [] := by
  obtain ⟨t, us, k, bare, rfl, -⟩ := typeForm_iff.mp h
  exact List.cons_ne_nil t us

theorem length_columnForm {ts : List Token} {column : Column} (h : ColumnForm ts column) :
    2 ≤ ts.length := by
  obtain ⟨name, us, vs, type, constraints, rfl, -, hType, -⟩ := columnForm_iff.mp h
  have := List.length_pos_iff.mpr (typeForm_ne_nil hType)
  simp only [List.length_append, List.length_cons]
  omega

theorem length_entriesForm {ts : List Token} {columns : List Column} {checks : List Condition}
    (h : EntriesForm ts columns checks) : 2 ≤ ts.length := by
  induction h with
  | first form => exact length_columnForm form
  | column _ _ _ ih | check _ _ _ ih =>
    rw [List.length_append]
    exact Nat.le_add_right_of_le ih

theorem length_listForm {α : Type} {item : List Token → α → Prop} {least : Nat}
    (hItem : ∀ {ts a}, item ts a → least ≤ ts.length) {ts : List Token} {as : List α}
    (h : ListForm item ts as) : least ≤ ts.length := by
  induction h with
  | single form => exact hItem form
  | append _ _ _ ih =>
    rw [List.length_append]
    exact Nat.le_add_right_of_le ih

theorem length_rowForm {ts : List Token} {row : Row} (h : RowForm ts row) : 3 ≤ ts.length := by
  obtain ⟨-, values, -⟩ := h
  have hOne : ∀ {ts : List Token} {v : Value}, LiteralForm ts v → 1 ≤ ts.length := by
    rintro ts v ⟨_⟩
    exact Nat.le_refl 1
  have := length_listForm hOne values
  simp only [List.length_append, List.length_cons]
  omega

/-- The shortest statement is a table of one column without sizes and constraints. -/
theorem length_bodyForm {ts : List Token} {statement : Statement} (h : BodyForm ts statement) :
    7 ≤ ts.length := by
  cases h with
  | createTable _ _ _ _ entries _ =>
    have := length_entriesForm entries
    simp only [List.length_append, List.length_cons]
    omega
  | insertInto _ _ _ _ _ _ _ rowForms =>
    have := length_listForm length_rowForm rowForms
    simp only [List.length_append, List.length_cons]
    omega

theorem length_statementForm {ts : List Token} {statement : Statement}
    (h : StatementForm ts statement) : 7 ≤ ts.length := by
  cases h with
  | bare body => exact length_bodyForm body
  | terminated body _ =>
    rw [List.length_append]
    exact Nat.le_add_right_of_le (length_bodyForm body)

/-! ### Sizes as a list -/

/-- At most `count` more sizes, each after a comma. -/
def furtherSizes (type : DataType) : Nat → List Size → ParseM (List Size)
  | 0, read => return read
  | count + 1, read => do
    if ← accept .comma then
      let next ← size type
      furtherSizes type count (read ++ [next])
    else
      return read

/-- All sizes of a type between the parentheses. -/
def sizeList (type : DataType) : ParseM (List Size) :=
  parenthesized do
    let first ← size type
    furtherSizes type (type.maxSizes - 1) [first]

theorem maxSizes_cases (type : DataType) : type.maxSizes < 2 ∨ type.maxSizes = 2 := by
  cases type <;> simp [DataType.maxSizes]

/-- The list of sizes is never empty, so it does not matter what is made of an empty one. -/
theorem sizes_eq_sizeList (type : DataType) (missing : ParseM DataType) :
    sizes type = sizeList type >>= fun read =>
      match read with
      | [] => missing
      | first :: others => pure (type.sized first others.head?) := by
  have hFurther : ∀ first, ∀ close : ParseM Token,
      (secondSize type >>= fun second => close >>= fun _ => pure (type.sized first second)) =
        furtherSizes type (type.maxSizes - 1) [first] >>= fun read => close >>= fun _ =>
          match read with
          | [] => missing
          | first :: others => pure (type.sized first others.head?) := by
    intro first close
    rcases maxSizes_cases type with hMax | hMax
    · have hCount : type.maxSizes - 1 = 0 := by omega
      rw [secondSize, if_pos hMax, hCount, furtherSizes, pure_bind, pure_bind]
      rfl
    · rw [secondSize, if_neg (by omega), hMax]
      simp only [furtherSizes, bind_assoc]
      refine bind_congr fun more => ?_
      cases more
      · simp only [Bool.false_eq_true, if_false, pure_bind, List.head?_nil]
      · simp only [if_true, bind_assoc, pure_bind]
        rfl
  simp only [sizes, sizeList, parenthesized, bind_assoc, pure_bind]
  exact bind_congr fun _ => bind_congr fun first => hFurther first _

/-! ### Calls -/

/-- What a parser may be asked for. -/
inductive Call where
  | statement
  | script
deriving DecidableEq

/-- The parser after a call, whether or not the call has succeeded. -/
def Call.after (parser : Parser) : Call → Parser
  | statement => (parser.run Parser.statement).2
  | script => (parser.run Parser.script).2

/-- The call has a run without bounds, which looks at these positions. -/
def Call.Traced (parser : Parser) (looks : List Nat) : Call → Prop
  | statement => Trace Parser.statement parser looks (parser.run Parser.statement)
  | script => Trace Parser.script parser looks (parser.run Parser.script)

def afterCalls (parser : Parser) (calls : List Call) : Parser :=
  calls.foldl Call.after parser

variable {limit : Nat} {parser : Parser} {looks : List Nat}

theorem Call.exists_traced (hReady : Ready limit parser) :
    ∀ call : Call, ∃ looks, call.Traced parser looks
  | statement => traceable_statement parser hReady
  | script => traceable_script parser hReady

theorem Call.Traced.passes {call : Call} (h : call.Traced parser looks) :
    ∃ ts, Passes parser ts (call.after parser) ∧
      ∀ i ∈ looks, parser.position ≤ i ∧ i ≤ (call.after parser).position := by
  cases call with
  | statement => exact Trace.passes h
  | script => exact Trace.passes h

theorem passes_afterCalls (hReady : Ready limit parser) (calls : List Call) :
    ∃ ts, Passes parser ts (parser.afterCalls calls) := by
  induction calls generalizing parser with
  | nil => exact ⟨[], .refl parser⟩
  | cons call calls ih =>
    obtain ⟨looks, hTraced⟩ := call.exists_traced hReady
    obtain ⟨ts, hPasses, -⟩ := hTraced.passes
    obtain ⟨us, hPasses'⟩ := ih (hPasses.ready hReady)
    exact ⟨ts ++ us, hPasses.trans hPasses'⟩

theorem withEnd_of_passes {ts : List Token} (h : Passes (ofTokens tokens) ts parser) :
    ∃ back, withEnd tokens = ts ++ (parser.rest ++ parser.stop :: back) := by
  obtain ⟨back, hTokens⟩ := withEnd_eq tokens
  exact ⟨back, by rw [hTokens, h.rest, h.stop, List.append_assoc]⟩

theorem position_of_passes {ts : List Token} (h : Passes (ofTokens tokens) ts parser) :
    parser.position = ts.length :=
  h.position.trans (Nat.zero_add _)

theorem position_le_of_passes {ts : List Token} (h : Passes (ofTokens tokens) ts parser) :
    parser.position ≤ (withEnd tokens).findIdx isEnd := by
  rw [findIdx_withEnd, h.length_rest, position_of_passes h]
  exact Nat.le_add_right _ _

theorem getElem?_position_of_passes {ts : List Token} (h : Passes (ofTokens tokens) ts parser) :
    (withEnd tokens)[parser.position]? = some parser.current := by
  obtain ⟨back, hTokens⟩ := withEnd_of_passes h
  rw [hTokens, position_of_passes h, List.getElem?_append_right (Nat.le_refl _), Nat.sub_self,
    Parser.current]
  cases parser.rest <;> rfl

theorem findIdx_withEnd_lt (tokens : List Token) :
    (withEnd tokens).findIdx isEnd < (withEnd tokens).length := by
  obtain ⟨back, hTokens⟩ := withEnd_eq tokens
  rw [findIdx_withEnd, hTokens, List.length_append, List.length_cons]
  omega

theorem run_statement_unsupported (hKind : parser.current.kind = .keyword)
    (hCreate : parser.current.isKeyword .create = false)
    (hInsert : parser.current.isKeyword .insert = false) :
    parser.run statement =
      (.error ⟨.unsupportedStatement parser.current.statementWord, parser.position⟩, parser) := by
  rw [run_statement, if_pos hKind, statementBody, Token.statementWord]
  split
  case h_1 hText => simp [Token.isKeyword, hKind, hText] at hCreate
  case h_2 hText => simp [Token.isKeyword, hKind, hText] at hInsert
  case h_3 hText => simp [hText]
  case h_4 hText => simp [hText]

theorem atEnd_of_run_script (hReady : Ready limit parser) {statements : Script} {after : Parser}
    (h : parser.run script = (.ok statements, after)) : after.atEnd = true := by
  have hStart : ScriptForm [] [] := .start (by simp [AllTerminators])
  rw [script, run_repeatWhile] at h
  rw [atEnd, (scriptForm_of_iterate hReady (Nat.le_refl _) hStart h).2]
  rfl

/-- What can be relied on in a parser over the tokens, before the next call and during it. -/
structure Safe (tokens : List Token) (parser : Parser) : Prop where
  hasEnd : tokens.findIdx isEnd < tokens.length
  notPastEnd : parser.position ≤ tokens.findIdx isEnd
  current : tokens[parser.position]? = some parser.current
  /-- Every call ends, and its result is that of a run without bounds. -/
  ends : ∀ call : Call, ∃ looks, call.Traced parser looks
  /-- No call looks behind the position where it has begun, or past the first end mark. -/
  inBounds : ∀ (call : Call) (looks : List Nat), call.Traced parser looks → ∀ i ∈ looks,
    parser.position ≤ i ∧ i ≤ tokens.findIdx isEnd
  forward : ∀ call : Call, parser.position ≤ (call.after parser).position
  progress : ∀ (s : Statement) (after : Parser), parser.run statement = (.ok s, after) →
    parser.position + 7 ≤ after.position
  /-- The parser is left as it was found, so the next call for a statement fails alike. -/
  noKeyword : parser.current.kind ≠ .keyword → parser.run statement =
    (.error ⟨.unexpectedToken .statementKeyword parser.current, parser.position⟩, parser)
  unsupported : parser.current.kind = .keyword → parser.current.isKeyword .create = false →
    parser.current.isKeyword .insert = false → parser.run statement =
      (.error ⟨.unsupportedStatement parser.current.statementWord, parser.position⟩, parser)
  atEnd : ∀ (statements : Script) (after : Parser),
    parser.run script = (.ok statements, after) → after.atEnd = true

/-- However a parser has been used, it is safe to go on with it. -/
theorem safe_afterCalls (tokens : List Token) (calls : List Call) :
    Safe (withEnd tokens) ((ofTokens tokens).afterCalls calls) ∧
      ∀ (type : DataType) (missing : ParseM DataType), sizes type = sizeList type >>= fun read =>
        match read with
        | [] => missing
        | first :: others => pure (type.sized first others.head?) := by
  obtain ⟨ts, hPasses⟩ := passes_afterCalls (ready_ofTokens tokens) calls
  have hReady := hPasses.ready (ready_ofTokens tokens)
  generalize (ofTokens tokens).afterCalls calls = parser at *
  refine ⟨?_, sizes_eq_sizeList⟩
  exact {
    hasEnd := findIdx_withEnd_lt tokens
    notPastEnd := position_le_of_passes hPasses
    current := getElem?_position_of_passes hPasses
    ends := Call.exists_traced hReady
    inBounds := by
      intro call looks hTraced i hi
      obtain ⟨us, hCall, hLooks⟩ := hTraced.passes
      obtain ⟨hFrom, hTo⟩ := hLooks i hi
      exact ⟨hFrom, hTo.trans (position_le_of_passes (hPasses.trans hCall))⟩
    forward := by
      intro call
      obtain ⟨looks, hTraced⟩ := call.exists_traced hReady
      obtain ⟨us, hCall, -⟩ := hTraced.passes
      rw [hCall.position]
      exact Nat.le_add_right _ _
    progress := by
      intro s after hRun
      obtain ⟨us, hStatement, hForm, -⟩ := (reads_statement parser hReady).sound hRun
      have := length_statementForm hForm
      rw [hStatement.position]
      omega
    noKeyword := fun hKind => by rw [run_statement, if_neg hKind]
    unsupported := run_statement_unsupported
    atEnd := fun _ _ => atEnd_of_run_script hReady }

end Parser
end SqlStore
