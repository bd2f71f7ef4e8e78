import SqlStore.Proofs.CommandLine.Transcript
import SqlStore.Proofs.Parser.Cause
import SqlStore.Proofs.Token.Failure
import SqlStore.Proofs.Token.Lossless

/-!
# Where carets point

An error of reading has a place in its query: the character at which scanning failed, or the token at
which parsing failed. The caret stands below the first character there, or behind the last one if the
end mark is to blame. So no position falls inside a character or behind the query, and there is a
caret for every such error.
-/
namespace SqlStore
set_option autoImplicit false

/-! ### Tokens of a text -/

/-- A token begins where its offset says; only the end mark has nothing behind its place. -/
theorem exists_split_of_tokenize {s : String} {tokens : List Token} (h : tokenize s = .ok tokens)
    {t : Token} (ht : t ∈ tokens) :
    ∃ before after, s.toList = before ++ after ∧ t.offset = Text.byteLength before ∧
      t.lexeme.toList <+: after ∧ (t.kind = .endOfInput ↔ after = []) := by
  obtain ⟨front, hScanned, rfl⟩ := tokenize_iff.mp h
  rcases List.mem_append.mp ht with hFront | hEnd
  · obtain ⟨before, behind, hText, hOffset, hNonempty⟩ := hScanned.layout.exists_split hFront
    rw [List.append_assoc] at hText
    rw [Nat.zero_add] at hOffset
    refine ⟨before, _, hText, hOffset, List.prefix_append _ _, fun hKind => ?_, fun hNone => ?_⟩
    · exact absurd hKind (hScanned.kind_ne_endOfInput hFront)
    · exact absurd (List.append_eq_nil_iff.mp hNone).1 hNonempty
  · obtain rfl := List.mem_singleton.mp hEnd
    exact ⟨s.toList, [], (List.append_nil _).symm, Text.utf8ByteSize_eq s, List.prefix_rfl,
      by simp [Token.endAt]⟩

theorem Parser.withEnd_of_tokenize {s : String} {tokens : List Token}
    (h : tokenize s = .ok tokens) : withEnd tokens = tokens := by
  obtain ⟨front, -, rfl⟩ := tokenize_iff.mp h
  simp [withEnd, isEnd, Token.endAt]

theorem Parser.index_lt_of_script {tokens : List Token} {e : ParseError}
    (h : Script.ofTokens tokens = .error e) : e.index < (withEnd tokens).length := by
  rcases hRun : (ofTokens tokens).run script with ⟨result, after⟩
  rw [Script.ofTokens, hRun] at h
  obtain rfl : result = .error e := h
  obtain ⟨us, middle, hMiddle, hFailed⟩ :=
    exists_statement_of_run_script (ready_ofTokens tokens) hRun
  exact (explained_of_passes hMiddle hFailed).inRange

namespace CommandLine

/-! ### Carets in texts -/

theorem caret_of_split {query : String} {before after : List Char}
    (hText : query.toList = before ++ after) :
    caret query (Text.byteLength before) =
      [String.ofList (query.toList.map flatten), caretLine before.length] := by
  rw [caret, caretColumn, hText, Text.charIndex?_byteLength, Option.getD_some]

theorem flatten_ne_newline (c : Char) : flatten c ≠ '\n' := by
  unfold flatten
  split
  · decide
  · rename_i hc
    exact fun hNewline => hc (.inl hNewline)

theorem newline_not_mem_caret (query : String) (offset : Nat) :
    ∀ line ∈ caret query offset, '\n' ∉ line.toList := by
  refine List.forall_mem_cons.mpr ⟨?_, List.forall_mem_singleton.mpr (by simp [caretLine])⟩
  rw [String.toList_ofList, List.mem_map]
  rintro ⟨c, -, hc⟩
  exact flatten_ne_newline c hc

/-! ### Places of errors -/

/-- What an error of reading blames begins behind the characters `before` of the query: a character
that starts no lexeme, or a token. Only the end mark begins behind the last character. -/
inductive BlamedAt (query : String) : QueryError → List Char → List Char → Prop
  | character {before rest : List Char} {c : Char} (text : query.toList = before ++ c :: rest) :
      BlamedAt query (.lex (LexError.starting (Text.byteLength before) c)) before (c :: rest)
  | token {e : ParseError} {tokens : List Token} {t : Token} {before after : List Char}
      (scanned : tokenize query = .ok tokens) (found : tokens[e.index]? = some t)
      (text : query.toList = before ++ after) (offset : t.offset = Text.byteLength before)
      (lexeme : t.lexeme.toList <+: after) (ending : t.kind = .endOfInput ↔ after = []) :
      BlamedAt query (.parse e) before after

/-- The position in bytes to which an error of reading belongs. -/
def errorOffset? (query : String) : QueryError → Option Nat
  | .lex e => some e.offset
  | .parse e =>
    match tokenize query with
    | .ok tokens => tokens[e.index]?.map Token.offset
    | .error _ => none

variable {query : String} {cause : QueryError} {before after : List Char}

theorem BlamedAt.text (h : BlamedAt query cause before after) : query.toList = before ++ after := by
  cases h with
  | character text | token _ _ text => exact text

theorem BlamedAt.offset (h : BlamedAt query cause before after) :
    errorOffset? query cause = some (Text.byteLength before) := by
  cases h with
  | character => rfl
  | token scanned found _ offset => simp [errorOffset?, scanned, found, offset]

theorem BlamedAt.carets (h : BlamedAt query cause before after) :
    carets query cause = caret query (Text.byteLength before) := by
  cases h with
  | character => rfl
  | token scanned found _ offset => simp only [CommandLine.carets, scanned, found, offset]

theorem exists_blamedAt (h : Script.ofText query = .error cause) :
    ∃ before after, BlamedAt query cause before after := by
  rw [Script.ofText] at h
  cases hTokens : tokenize query with
  | error e =>
    rw [readTokens_of_error hTokens] at h
    cases h
    obtain ⟨before, c, rest, hText, -, -, -, rfl⟩ := exists_front_of_error hTokens
    exact ⟨before, c :: rest, .character hText⟩
  | ok tokens =>
    rw [readTokens_of_ok hTokens] at h
    cases hScript : Script.ofTokens tokens with
    | ok script =>
      rw [hScript] at h
      cases h
    | error e =>
      rw [hScript] at h
      cases h
      have hIndex := Parser.index_lt_of_script hScript
      rw [Parser.withEnd_of_tokenize hTokens] at hIndex
      obtain ⟨before, after, hText, hOffset, hLexeme, hEnd⟩ :=
        exists_split_of_tokenize hTokens (List.getElem_mem hIndex)
      exact ⟨before, after,
        .token hTokens (List.getElem?_eq_getElem hIndex) hText hOffset hLexeme hEnd⟩

/-- The caret of an error stands below the first character of what is blamed. -/
structure Points (query : String) (cause : QueryError) (before after : List Char) : Prop where
  blamed : BlamedAt query cause before after
  text : query.toList = before ++ after
  offset : errorOffset? query cause = some (Text.byteLength before)
  inside : Text.byteLength before ≤ query.utf8ByteSize
  boundary : String.Pos.Raw.IsValid query ⟨Text.byteLength before⟩
  /-- No count of bytes stands in for the column. -/
  column : Text.charIndex? query.toList (Text.byteLength before) = some before.length
  lines : carets query cause = [String.ofList (query.toList.map flatten), caretLine before.length]
  width : (String.ofList (query.toList.map flatten)).length = query.length
  unbroken : ∀ line ∈ carets query cause, '\n' ∉ line.toList

theorem BlamedAt.points (h : BlamedAt query cause before after) :
    Points query cause before after where
  blamed := h
  text := h.text
  offset := h.offset
  inside := by
    rw [Text.utf8ByteSize_eq, h.text, Text.byteLength_append]
    exact Nat.le_add_right _ _
  boundary := Text.isValid_byteLength h.text
  column := by rw [h.text, Text.charIndex?_byteLength]
  lines := by rw [h.carets, caret_of_split h.text]
  width := by rw [String.length_ofList, List.length_map, String.length_toList]
  unbroken := by
    rw [h.carets]
    exact newline_not_mem_caret query _

/-! ### Carets on the terminal -/

namespace Session

variable {α β ι : Type}

/-- Nothing is printed on the diagnostics unless it fails. -/
def Quiet (action : SessionM α) : Prop :=
  ∀ (session : Session) (a : α) (after : Session), session.run action = (.ok a, after) →
    after.diagnostics = session.diagnostics

theorem quiet_pure (a : α) : Quiet (pure a) := by
  rintro session _ _ ⟨⟩
  rfl

theorem quiet_say (line : String) : Quiet (say line) := by
  intro session a after h
  rw [run_say] at h
  cases h
  rfl

theorem Quiet.bind {action : SessionM α} {next : α → SessionM β} (h : Quiet action)
    (hNext : ∀ a, Quiet (next a)) : Quiet (action >>= next) := by
  intro session b after hRun
  rcases hFirst : session.run action with ⟨report | a, middle⟩
  · rw [session.run_bind_error hFirst] at hRun
    cases hRun
  · rw [session.run_bind_ok hFirst] at hRun
    exact (hNext a middle b after hRun).trans (h session a middle hFirst)

theorem Quiet.forM {action : ι → SessionM Unit} (h : ∀ item, Quiet (action item))
    (items : List ι) : Quiet (items.forM action) := by
  induction items with
  | nil => exact quiet_pure ()
  | cons item rest ih => exact (h item).bind fun _ => ih

theorem quiet_executeStatement (options : Options) (statement : Statement) :
    Quiet (executeStatement options statement) := by
  have hHidden : Quiet (executeStatement { options with showStatements := false } statement) := by
    intro session a after h
    rw [run_executeStatement rfl] at h
    generalize session.database.apply (Database.execute statement) = result at h
    rcases result with ⟨e | count, db⟩
    · cases h
    · cases statement with
      | createTable _ => exact quiet_pure () (session.withDatabase db) a after h
      | insertInto _ => exact quiet_say _ (session.withDatabase db) a after h
  cases hShow : options.showStatements with
  | false =>
    rwa [← hShow] at hHidden
  | true =>
    have hShown : executeStatement options statement =
        say statement.drawing.blockText >>= fun _ =>
          executeStatement { options with showStatements := false } statement := by
      rw [executeStatement, hShow]
      rfl
    rw [hShown]
    exact (quiet_say _).bind fun _ => hHidden

theorem quiet_executeQuery (options : Options) (query : String) :
    Quiet (executeQuery options query) := by
  intro session a after h
  rw [run_executeQuery] at h
  cases hText : Script.ofText query with
  | error cause =>
    rw [hText] at h
    cases h
  | ok script =>
    rw [hText] at h
    exact Quiet.forM (quiet_executeStatement options) script (session.tell _) a after h

/-- The queries before the one that fails have run, and those behind it do not. -/
theorem run_play_unread {options : Options} {front back : List String} {reached : Session}
    (hText : Script.ofText query = .error cause)
    (hFront : start.run (front.forM (executeQuery options)) = (.ok (), reached)) :
    start.run (play options (front ++ query :: back)) = (.error ⟨cause.message, none⟩,
      (reached.tell (tokenLines options query)).point (carets query cause)) := by
  have hFails : reached.run (executeQuery options query) = (.error ⟨cause.message, none⟩,
      (reached.tell (tokenLines options query)).point (carets query cause)) := by
    rw [run_executeQuery, hText]
  have hLoop : (front ++ query :: back).forM (executeQuery options) =
      front.forM (executeQuery options) >>= fun _ => executeQuery options query >>= fun _ =>
        back.forM (executeQuery options) := List.forM_append
  refine run_bind_error _ ?_
  rw [hLoop, start.run_bind_ok hFront]
  exact run_bind_error _ hFails

end Session

/-- Whenever the program comes to the query, it ends there, and the lines and the report are all that
it prints on its diagnostics. -/
def Shows (query : String) (cause : QueryError) (lines : List String) : Prop :=
  ∀ arguments input options front back reached,
    Invocation.ofArguments arguments = .session options →
    (options.queries = front ++ query :: back ∨ options.queries = [] ∧ front = [] ∧ back = [] ∧
      String.fromUTF8? input = some query) →
    Session.start.run (front.forM (Session.executeQuery options)) = (.ok (), reached) →
    Transcript.ofInvocation (.ofArguments arguments) input =
      ⟨1, reached.output ++ unlines (Session.tokenLines options query),
        unlines lines ++ Report.text ⟨cause.message, none⟩⟩

theorem shows_carets (hText : Script.ofText query = .error cause) :
    Shows query cause (carets query cause) := by
  intro arguments input options front back reached hArguments hQueries hFront
  have hQuiet : reached.diagnostics = "" :=
    Session.Quiet.forM (Session.quiet_executeQuery options) front _ _ _ hFront
  have hSession : Transcript.ofInvocation (.ofArguments arguments) input =
      Transcript.ofSession options (front ++ query :: back) := by
    refine ofInvocation_eq_ofSession hArguments ?_
    rcases hQueries with hGiven | ⟨hNone, rfl, rfl, hInput⟩
    · exact .inl ⟨hGiven, by simp⟩
    · exact .inr ⟨hNone, query, hInput, rfl⟩
  rw [hSession, ofSession_of_error (Session.run_play_unread hText hFront)]
  simp [Session.tell, Session.point, hQuiet]

end CommandLine
end SqlStore
