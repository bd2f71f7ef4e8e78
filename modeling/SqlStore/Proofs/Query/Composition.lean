import SqlStore.Proofs.Parser.Composition
import SqlStore.Proofs.Query.WellFormed

/-!
# Scripts joined by a terminator

Two texts that are read as scripts are read one after the other if a terminator joins them. If the
second one cannot be read, neither can both, and the error is that of the second text at a distance.
-/
namespace SqlStore
set_option autoImplicit false

/-- The error of the same text behind `count` tokens and at a distance in bytes. -/
def QueryError.displaced (count distance : Nat) : QueryError → QueryError
  | .lex error => .lex (error.displaced distance)
  | .parse error => .parse (error.displaced count distance)

theorem ofText_composed {a : String} {tokens : List Token} {first : Script}
    (hScanned : Scanned 0 a.toList tokens)
    (hRead : Script.ofTokens (tokens ++ [Token.endAt a.utf8ByteSize]) = .ok first) (b : String) :
    Script.ofText (a ++ ";" ++ b) =
      match Script.ofText b with
      | .ok second => .ok (first ++ second)
      | .error e => .error (e.displaced (tokens.length + 1) (a.utf8ByteSize + 1)) := by
  rw [Script.ofText, Script.ofText, readTokens, readTokens, tokenize_composed hScanned]
  cases hTokens : tokenize b with
  | error e => rfl
  | ok all =>
    obtain ⟨more, hMore, rfl⟩ := tokenize_iff.mp hTokens
    have hFirst : ∀ t ∈ tokens, t.kind ≠ .endOfInput := fun t ht => hScanned.kind_ne_endOfInput ht
    have hSecond : ∀ t ∈ more, t.kind ≠ .endOfInput := fun t ht => hMore.kind_ne_endOfInput ht
    have hJoined := @Parser.ofTokens_composed tokens more
      ⟨.terminator, ";", a.utf8ByteSize⟩ (Token.endAt b.utf8ByteSize) _ (a.utf8ByteSize + 1)
      hFirst hSecond rfl rfl rfl first hRead
    dsimp only [Except.mapError, bind, Except.bind]
    rw [List.map_append, List.map_singleton, ← List.cons_append, ← List.append_assoc, hJoined]
    cases Script.ofTokens (more ++ [Token.endAt b.utf8ByteSize]) <;> rfl

theorem ofText_composed_ok {a b : String} {first second : Script}
    (hFirst : Script.ofText a = .ok first) (hSecond : Script.ofText b = .ok second) :
    Script.ofText (a ++ ";" ++ b) = .ok (first ++ second) := by
  obtain ⟨tokens, hScanned, hRead⟩ := readTokens_eq_ok_iff.mp hFirst
  rw [ofText_composed hScanned hRead, hSecond]

/-- What comes behind the terminator must be scanned, but it does not have to be parsed. -/
theorem ofText_composed_error {a b : String} {tokens more : List Token} {e : ParseError}
    (hScanned : Scanned 0 a.toList tokens) (hIndex : e.index < tokens.length)
    (hRead : Script.ofTokens (tokens ++ [Token.endAt a.utf8ByteSize]) = .error e)
    (hMore : tokenize b = .ok more) : Script.ofText (a ++ ";" ++ b) = .error (.parse e) := by
  obtain ⟨others, hOthers, rfl⟩ := tokenize_iff.mp hMore
  have hFirst : ∀ t ∈ tokens, t.kind ≠ .endOfInput := fun t ht => hScanned.kind_ne_endOfInput ht
  have hSecond : ∀ t ∈ others.map (Token.displaced (a.utf8ByteSize + 1)),
      t.kind ≠ .endOfInput := by
    rw [List.forall_mem_map]
    intro t ht
    exact (hOthers.kind_ne_endOfInput ht : t.kind ≠ .endOfInput)
  have hJoined := @Parser.ofTokens_composed_error tokens
    (others.map (Token.displaced (a.utf8ByteSize + 1))) ⟨.terminator, ";", a.utf8ByteSize⟩
    ((Token.endAt b.utf8ByteSize).displaced (a.utf8ByteSize + 1)) _ hFirst hSecond rfl rfl rfl e
    hIndex hRead
  rw [Script.ofText, readTokens, tokenize_composed hScanned, hMore]
  dsimp only [Except.mapError, bind, Except.bind]
  rw [List.map_append, List.map_singleton, ← List.cons_append, ← List.append_assoc, hJoined]

theorem ofText_of_scanned {sql : String} {tokens : List Token}
    (h : Scanned 0 sql.toList tokens) :
    Script.ofText sql =
      (Script.ofTokens (tokens ++ [Token.endAt sql.utf8ByteSize])).mapError .parse :=
  readTokens_of_ok (tokenize_iff.mpr ⟨tokens, h, rfl⟩)

/-- A terminator between two texts separates their tokens, and with them what is read of each text.
The errors of the second text are displaced by the first one and the terminator; those that lie in
the first text stay, provided the second one can be scanned. -/
theorem composed_of_tokenize {a : String} {tokens : List Token} (h : tokenize a = .ok tokens)
    (b : String) :
    let length := a.utf8ByteSize
    let count := tokens.dropLast.length
    tokens = tokens.dropLast ++ [Token.endAt length] ∧
      (tokenize (a ++ ";" ++ b) =
        match tokenize b with
        | .ok more => .ok (tokens.dropLast ++ ⟨.terminator, ";", length⟩ ::
            more.map (Token.displaced (length + 1)))
        | .error e => .error (e.displaced (length + 1))) ∧
      (∀ {first : Script}, Script.ofText a = .ok first →
        (∀ {second : Script}, Script.ofText b = .ok second →
          Script.ofText (a ++ ";" ++ b) = .ok (first ++ second)) ∧
        ∀ {e : ParseError}, Script.ofText b = .error (.parse e) →
          Script.ofText (a ++ ";" ++ b) = .error (.parse (e.displaced (count + 1) (length + 1)))) ∧
      ∀ {e : ParseError} {more : List Token}, Script.ofText a = .error (.parse e) →
        e.index < count → tokenize b = .ok more →
        Script.ofText (a ++ ";" ++ b) = .error (.parse e) := by
  obtain ⟨front, hScanned, rfl⟩ := tokenize_iff.mp h
  have hRead := ofText_of_scanned hScanned
  rw [List.dropLast_concat]
  refine ⟨rfl, tokenize_composed hScanned b, fun hFirst => ⟨ofText_composed_ok hFirst, ?_⟩, ?_⟩
  · intro e hSecond
    rw [hRead] at hFirst
    cases hOutcome : Script.ofTokens (front ++ [Token.endAt a.utf8ByteSize]) with
    | error d =>
      rw [hOutcome] at hFirst
      cases hFirst
    | ok first => rw [ofText_composed hScanned hOutcome, hSecond]; rfl
  · intro e more hFirst hIndex hMore
    rw [hRead] at hFirst
    cases hOutcome : Script.ofTokens (front ++ [Token.endAt a.utf8ByteSize]) with
    | error d =>
      rw [hOutcome] at hFirst
      cases hFirst
      exact ofText_composed_error hScanned hIndex hOutcome hMore
    | ok first =>
      rw [hOutcome] at hFirst
      cases hFirst

theorem composed_of_tokenize_sample :
    tokenize ("SELECT -1" ++ ";" ++ "NOT  é") = .error (.displaced 10 ⟨.unexpectedChar 'é', 5⟩) ∧
      Script.ofText ("CREATE TABLE t (a INT)" ++ ";" ++ "INSERT INTO t (a) VALUES (1)") =
        .ok ([.createTable ⟨"t", [⟨"a", .int, []⟩], []⟩] ++
          [.insertInto ⟨"t", ["a"], [[.number "1"]]⟩]) ∧
      Script.ofText ("CREATE TABLE t (a INT)" ++ ";" ++ "INSERT INTO") =
        .error (.parse (ParseError.displaced 8 23 ⟨.unexpectedToken .tableName (.endAt 11), 2⟩)) ∧
      Script.ofText ("SELECT -1" ++ ";" ++ "NOT  NULL") =
        .error (.parse ⟨.unsupportedStatement "SELECT", 0⟩) := by
  have hSelect : tokenize "SELECT -1" =
      .ok [⟨.keyword, "SELECT", 0⟩, ⟨.numberLiteral, "-1", 7⟩, .endAt 9] := by decide +kernel
  have hCreate : tokenize "CREATE TABLE t (a INT)" =
      .ok [⟨.keyword, "CREATE", 0⟩, ⟨.keyword, "TABLE", 7⟩, ⟨.identifier, "t", 13⟩,
        ⟨.parenOpen, "(", 15⟩, ⟨.identifier, "a", 16⟩, ⟨.keyword, "INT", 18⟩,
        ⟨.parenClose, ")", 21⟩, .endAt 22] := by decide +kernel
  have hStatement : Script.ofText "CREATE TABLE t (a INT)" =
      .ok [.createTable ⟨"t", [⟨"a", .int, []⟩], []⟩] := by decide +kernel
  have hLex : tokenize "NOT  é" = .error ⟨.unexpectedChar 'é', 5⟩ := by decide +kernel
  have hTokens := (composed_of_tokenize hSelect "NOT  é").2.1
  rw [hLex] at hTokens
  exact ⟨hTokens,
    ((composed_of_tokenize hCreate _).2.2.1 hStatement).1 (by decide +kernel),
    ((composed_of_tokenize hCreate _).2.2.1 hStatement).2 (by decide +kernel),
    @(composed_of_tokenize hSelect _).2.2.2 _ [⟨.keyword, "NOT  NULL", 0⟩, .endAt 9]
      (by decide +kernel) (by decide) (by decide +kernel)⟩

end SqlStore
