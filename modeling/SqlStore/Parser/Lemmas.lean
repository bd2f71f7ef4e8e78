import SqlStore.Parser.Basic

/-!
# Running parsers

What the basic readers do to a parser. A reader that is built from these is run by rewriting; the
lemmas on loops follow one round at a time.
-/
namespace SqlStore.Parser
set_option autoImplicit false

variable {α β : Type} (parser : Parser)

@[simp] theorem run_pure (a : α) : parser.run (pure a : ParseM α) = (.ok a, parser) := rfl

theorem run_bind (reader : ParseM α) (next : α → ParseM β) :
    parser.run (reader >>= next) =
      match parser.run reader with
      | (.ok a, after) => after.run (next a)
      | (.error e, after) => (.error e, after) := by
  unfold run
  rw [ExceptT.run_bind, StateT.run_bind]
  generalize (ExceptT.run reader).run parser = outcome
  rcases outcome with ⟨_ | _, after⟩ <;> rfl

theorem run_bind_ok {reader : ParseM α} {next : α → ParseM β} {a : α} {after : Parser}
    (h : parser.run reader = (.ok a, after)) :
    parser.run (reader >>= next) = after.run (next a) := by
  rw [run_bind, h]

theorem run_bind_error {reader : ParseM α} {next : α → ParseM β} {e : ParseError} {after : Parser}
    (h : parser.run reader = (.error e, after)) :
    parser.run (reader >>= next) = (.error e, after) := by
  rw [run_bind, h]

@[simp] theorem run_get : parser.run (get : ParseM Parser) = (.ok parser, parser) := rfl

@[simp] theorem run_modify (f : Parser → Parser) :
    parser.run (modify f : ParseM Unit) = (.ok (), f parser) := rfl

@[simp] theorem run_index : parser.run index = (.ok parser.position, parser) := rfl

@[simp] theorem run_peek : parser.run peek = (.ok parser.current, parser) := rfl

@[simp] theorem run_advance : parser.run advance = (.ok (), parser.next) := rfl

@[simp] theorem run_record (event : ParseEvent) :
    parser.run (record event) = (.ok (), { parser with events := event :: parser.events }) := rfl

@[simp] theorem run_fail (fault : ParseFault) (index : Nat) :
    parser.run (fail fault index : ParseM α) = (.error ⟨fault, index⟩, parser) := rfl

@[simp] theorem run_unexpected (expected : Expectation) :
    parser.run (unexpected expected : ParseM α) =
      (.error ⟨.unexpectedToken expected parser.current, parser.position⟩, parser) := rfl

@[simp] theorem run_check (kind : TokenKind) :
    parser.run (check kind) = (.ok (parser.current.kind == kind), parser) := rfl

@[simp] theorem run_checkKeyword (keyword : Keyword) :
    parser.run (checkKeyword keyword) = (.ok (parser.current.isKeyword keyword), parser) := rfl

theorem run_stepIf {test : ParseM Bool} {yes : Bool} (h : parser.run test = (.ok yes, parser)) :
    parser.run (stepIf test) = (.ok yes, if yes then parser.next else parser) := by
  rw [stepIf, run_bind_ok parser h]
  cases yes <;> rfl

theorem run_accept (kind : TokenKind) :
    parser.run (accept kind) =
      (.ok (parser.current.kind == kind),
        if parser.current.kind == kind then parser.next else parser) :=
  run_stepIf parser (run_check parser kind)

theorem run_consume (kind : TokenKind) (expected : Expectation) :
    parser.run (consume kind expected) =
      if parser.current.kind = kind then (.ok parser.current, parser.next)
      else (.error ⟨.unexpectedToken expected parser.current, parser.position⟩, parser) := by
  rw [consume, run_bind_ok parser (run_peek parser)]
  split <;> rfl

theorem run_consumeKeyword (keyword : Keyword) :
    parser.run (consumeKeyword keyword) =
      if parser.current.isKeyword keyword then (.ok (), parser.next)
      else
        (.error ⟨.unexpectedToken (.keyword keyword) parser.current, parser.position⟩, parser) := by
  rw [consumeKeyword, run_bind_ok parser (run_checkKeyword parser keyword)]
  split <;> rfl

@[simp] theorem run_iterate_zero (more : ParseM Bool) (step : α → ParseM α) (a : α) :
    parser.run (iterate more step 0 a) = (.ok a, parser) := rfl

theorem run_iterate_succ (more : ParseM Bool) (step : α → ParseM α) (bound : Nat) (a : α) :
    parser.run (iterate more step (bound + 1) a) =
      parser.run (more >>= fun yes =>
        if yes then step a >>= iterate more step bound else pure a) := rfl

theorem run_repeatWhile (more : ParseM Bool) (step : α → ParseM α) (a : α) :
    parser.run (repeatWhile more step a) = parser.run (iterate more step parser.rest.length a) :=
  rfl

end SqlStore.Parser
