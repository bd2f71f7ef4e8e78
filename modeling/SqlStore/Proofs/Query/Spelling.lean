import SqlStore.Proofs.Token.Scanned
import SqlStore.Statement.Literal

/-!
# Texts that spell forms

A text spells a form if the tokens that stand in it are of that form, wherever it stands, as long as
what comes after it keeps its last lexeme apart. Texts are put together piece by piece: a piece may be
followed by another if that one begins with a character that breaks off lexemes.
-/
namespace SqlStore
open TokenKind
set_option autoImplicit false

def Spells (text : List Char) (form : List Token → Prop) (follow : List Char → Prop) : Prop :=
  ∀ offset rest tokens, follow rest → Scanned (offset + Text.byteLength text) rest tokens →
    ∃ ts, form ts ∧ Scanned offset (text ++ rest) (ts ++ tokens)

def OneOf (p : Token → Prop) (ts : List Token) : Prop :=
  ∃ t, ts = [t] ∧ p t

def Both (first second : List Token → Prop) (ts : List Token) : Prop :=
  ∃ us vs, ts = us ++ vs ∧ first us ∧ second vs

/-- After a name, what comes next must not be the second word of a keyword either. -/
structure BreaksName (rest : List Char) : Prop where
  breaks : Breaks rest
  apart : ∀ c ∈ (rest.dropWhile Text.isBlank).head?, c ≠ 'N' ∧ c ≠ 'K'

def anyText : List Char → Prop :=
  fun _ => True

theorem breaks_cons {c : Char} (cs : List Char) (hc : isBreak c = true) : Breaks (c :: cs) := by
  simpa [Breaks] using hc

theorem breaksName_sign {c : Char} (cs : List Char) (hc : isBreak c = true)
    (hBlank : Text.isBlank c = false) : BreaksName (c :: cs) := by
  refine ⟨breaks_cons cs hc, ?_⟩
  rw [List.dropWhile_cons_of_neg (by simp [hBlank])]
  rintro d ⟨⟩
  constructor <;>
    · rintro rfl
      exact absurd hc (by decide)

theorem breaksName_space {c : Char} (cs : List Char) (hBlank : Text.isBlank c = false)
    (hN : c ≠ 'N') (hK : c ≠ 'K') : BreaksName (' ' :: c :: cs) := by
  refine ⟨breaks_cons _ (by decide), ?_⟩
  rw [List.dropWhile_cons_of_pos (by decide), List.dropWhile_cons_of_neg (by simp [hBlank])]
  rintro d ⟨⟩
  exact ⟨hN, hK⟩

/-- The text begins neither with a blank nor like the second word of a keyword. -/
def startsApart (text : List Char) : Bool :=
  text.head?.any fun c => !Text.isBlank c && c != 'N' && c != 'K'

theorem breaksName_word {text : List Char} (cs : List Char) (h : startsApart text = true) :
    BreaksName (' ' :: (text ++ cs)) := by
  cases text with
  | nil => cases h
  | cons c text =>
    simp only [startsApart, List.head?_cons, Option.any_some, Bool.and_eq_true, Bool.not_eq_true',
      bne_iff_ne] at h
    exact breaksName_space _ h.1.1 h.1.2 h.2

/-- The second words of keywords are `NULL` and `KEY`. -/
theorem BreaksName.alone {word rest : List Char} (h : BreaksName rest)
    (hWord : Lexeme.IsIdentifier word) : ¬ StartsKeyword word rest := by
  rw [startsKeyword_iff hWord h.breaks.stopsAt_word]
  rintro ⟨k, gap, tail, back, rfl, hWords, ⟨-, hGap⟩, -⟩
  have hTails : ∀ k ∈ Keyword.all, ∀ tail ∈ k.words.drop 1,
      tail.head? = some 'N' ∨ tail.head? = some 'K' := by decide +kernel
  have hTail := hTails k k.mem_all tail (by simp [hWords])
  obtain ⟨-, hWordTail⟩ := Lexeme.isWord_of_words_pair hWords
  have hApart := h.apart
  cases tail with
  | nil => cases hWordTail
  | cons c tail =>
    have hBlank := (Lexeme.isSolid_of_isWord hWordTail).2 c List.mem_cons_self
    have hDrop : ((gap ++ c :: tail ++ back).dropWhile Text.isBlank).head? = some c := by
      rw [List.append_assoc, List.dropWhile_append_of_pos hGap, List.cons_append,
        List.dropWhile_cons_of_neg (by simp [hBlank])]
      rfl
    have hc := hApart c hDrop
    rcases hTail with hTail | hTail
    · exact hc.1 (Option.some_inj.mp hTail)
    · exact hc.2 (Option.some_inj.mp hTail)

section

variable {text other : List Char} {form form' : List Token → Prop}
  {follow follow' : List Char → Prop}

theorem Spells.imp (h : Spells text form follow) (hForm : ∀ ts, form ts → form' ts) :
    Spells text form' follow := by
  intro offset rest tokens hRest hScanned
  obtain ⟨ts, hTs, hAll⟩ := h offset rest tokens hRest hScanned
  exact ⟨ts, hForm ts hTs, hAll⟩

theorem Spells.weaken (h : Spells text form follow) (hFollow : ∀ rest, follow' rest → follow rest) :
    Spells text form follow' :=
  fun offset rest tokens hRest => h offset rest tokens (hFollow rest hRest)

theorem spells_nil (h : form []) : Spells [] form follow :=
  fun _ _ _ _ hScanned => ⟨[], h, hScanned⟩

theorem spells_lexeme {kind : TokenKind} {lexeme : List Char}
    (h : ∀ rest, follow rest → kind.Stands lexeme rest) :
    Spells lexeme (OneOf fun t => t.kind = kind ∧ t.lexeme = String.ofList lexeme) follow :=
  fun offset rest _ hRest hScanned =>
    ⟨[⟨kind, String.ofList lexeme, offset⟩], ⟨_, rfl, rfl, rfl⟩, .token (h rest hRest) hScanned⟩

theorem Spells.append (h : Spells text form follow) (h' : Spells other form' follow')
    (hFollow : ∀ rest, follow' rest → follow (other ++ rest)) :
    Spells (text ++ other) (Both form form') follow' := by
  intro offset rest tokens hRest hScanned
  rw [Text.byteLength_append, ← Nat.add_assoc] at hScanned
  obtain ⟨vs, hVs, hOther⟩ := h' _ rest tokens hRest hScanned
  obtain ⟨us, hUs, hAll⟩ := h offset _ _ (hFollow rest hRest) hOther
  refine ⟨us ++ vs, ⟨us, vs, rfl, hUs, hVs⟩, ?_⟩
  rwa [List.append_assoc, List.append_assoc]

theorem Spells.space (h : Spells text form follow) : Spells (' ' :: text) form follow := by
  intro offset rest tokens hRest hScanned
  rw [Text.byteLength_cons, ← Nat.add_assoc] at hScanned
  obtain ⟨ts, hTs, hText⟩ := h _ rest tokens hRest hScanned
  exact ⟨ts, hTs, .blank (by decide) hText⟩

/-- A space separates whatever a break separates. -/
theorem Spells.spaced (h : Spells text form Breaks) (h' : Spells other form' follow) :
    Spells (text ++ ' ' :: other) (Both form form') follow :=
  h.append h'.space fun _ _ => breaks_cons _ (by decide)

theorem spells_sign {c : Char} (kind : TokenKind) (hClass : kind.Class [c])
    (hEnds : ∀ rest, kind.Ends [c] rest) (hKind : kind ≠ .identifier) :
    Spells [c] (OneOf fun t => t.kind = kind) anyText := by
  have hStands : ∀ rest, anyText rest → kind.Stands [c] rest := fun rest _ =>
    ⟨hClass, hEnds rest, fun h => absurd h hKind⟩
  refine (spells_lexeme hStands).imp ?_
  rintro ts ⟨t, rfl, hSign, -⟩
  exact ⟨t, rfl, hSign⟩

theorem spells_parenthesized (h : Spells text form follow) (hFollow : ∀ rest, follow (')' :: rest)) :
    Spells ('(' :: (text ++ [')'])) (fun ts => ∃ opening us closing, ts = opening :: us ++ [closing] ∧
      opening.kind = .parenOpen ∧ form us ∧ closing.kind = .parenClose) anyText := by
  have hClose : Spells [')'] _ anyText :=
    spells_sign .parenClose rfl (fun _ => trivial) (by decide)
  have hOpen : Spells ['('] _ anyText :=
    spells_sign .parenOpen rfl (fun _ => trivial) (by decide)
  have hAll := hOpen.append (h.append hClose fun rest _ => hFollow rest) fun _ _ => trivial
  refine hAll.imp ?_
  rintro ts ⟨_, _, rfl, ⟨opening, rfl, hOpening⟩, us, _, rfl, hUs, closing, rfl, hClosing⟩
  exact ⟨opening, us, closing, rfl, hOpening, hUs, hClosing⟩

/-! ### Lists -/

/-- One item after another with a comma and a space before each, if the form of the whole grows by
one item at a time. -/
theorem spells_items {α : Type} {print : α → List Char} {item : α → List Token → Prop}
    (whole : List α → List Token → Prop)
    (hWhole : ∀ as a ts us comma, whole as ts → comma.kind = .comma → item a us →
      whole (as ++ [a]) (ts ++ comma :: us))
    (hFollow : ∀ rest, follow (',' :: rest)) {front items : List α}
    (hFront : Spells text (whole front) follow)
    (hItems : ∀ a ∈ items, Spells (print a) (item a) follow) :
    Spells (text ++ items.flatMap fun a => ',' :: ' ' :: print a) (whole (front ++ items)) follow := by
  have hComma : Spells [','] _ anyText :=
    spells_sign .comma rfl (fun _ => trivial) (by decide)
  induction items generalizing text front with
  | nil => simpa using hFront
  | cons a items ih =>
    have hItem := hComma.append (hItems a List.mem_cons_self).space fun _ _ => trivial
    have hNext : Spells (text ++ ',' :: ' ' :: print a) (whole (front ++ [a])) follow := by
      refine (hFront.append hItem fun rest _ => hFollow _).imp ?_
      rintro ts ⟨us, _, rfl, hUs, _, vs, rfl, ⟨comma, rfl, hKind⟩, hVs⟩
      exact hWhole front a us vs comma hUs hKind hVs
    have hRest := ih hNext fun b hb => hItems b (List.mem_cons_of_mem _ hb)
    simpa using hRest

theorem intercalate_cons (sep first : List Char) (items : List (List Char)) :
    sep.intercalate (first :: items) = first ++ items.flatMap (sep ++ ·) := by
  induction items generalizing first with
  | nil => simp
  | cons next items ih => simp [List.intercalate_cons_cons, ih]

end

end SqlStore
