import SqlStore.Token.Scan

/-!
# Layouts

A layout of tokens in a text says where every character of the text belongs: to one token, which
stands at its offset, or to the blank space between tokens. `layout_of_walk` says that a scan which
reaches the end of a text has found a layout of the whole text.
-/
namespace SqlStore
set_option autoImplicit false

inductive Layout : Nat → List Char → List Token → Prop where
  | done {offset : Nat} : Layout offset [] []
  | blank {offset : Nat} {c : Char} {cs : List Char} {tokens : List Token}
      (isBlank : Text.isBlank c = true) (rest : Layout (offset + c.utf8Size) cs tokens) :
      Layout offset (c :: cs) tokens
  | token {offset : Nat} {kind : TokenKind} {lexeme cs : List Char} {tokens : List Token}
      (nonempty : lexeme ≠ []) (rest : Layout (offset + Text.byteLength lexeme) cs tokens) :
      Layout offset (lexeme ++ cs) (⟨kind, String.ofList lexeme, offset⟩ :: tokens)

namespace Scan

theorem layout_of_walk {order : List TokenKind} {offset finish : Nat} {cs : List Char}
    (h : (walk order offset cs).stop = .ok finish) :
    Layout offset cs (walk order offset cs).tokens ∧ finish = offset + Text.byteLength cs := by
  fun_induction walk order offset cs with
  | case1 offset =>
    cases h
    exact ⟨.done, rfl⟩
  | case2 offset c rest hBlank ih =>
    obtain ⟨hLayout, rfl⟩ := ih h
    exact ⟨.blank hBlank hLayout, by rw [Text.byteLength_cons, Nat.add_assoc]⟩
  | case3 => cases h
  | case4 offset c rest hBlank kind n hMatch lexeme ih =>
    obtain ⟨hLayout, rfl⟩ := ih h
    have hBounds := TokenKind.firstMatch?_bounds hMatch
    have hNonempty : lexeme ≠ [] := by
      rw [← List.length_pos_iff, List.length_take]
      omega
    refine ⟨?_, by rw [Nat.add_assoc, Text.byteLength_take_add_drop]⟩
    have hToken := @Layout.token offset kind lexeme ((c :: rest).drop n) _ hNonempty hLayout
    rwa [List.take_append_drop] at hToken

end Scan
end SqlStore
