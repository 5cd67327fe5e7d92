/-
This file reads the scalars of JSON text back. Text is cut into tokens by a
fold, so `Lexes` says what a part of it is read as together with what follows:
a string or a mark of punctuation stands for itself, while a word goes on until
a character comes that no word has (`EndsWord`).
-/

import Mathlib.Data.List.Forall2
import Mathlib.Data.List.TakeWhile
import BytecodeFlow.Json.Reader
import BytecodeFlow.Json.Writer

namespace BytecodeFlow

namespace Json

/-! ### Texts and tokens -/

theorem foldlM_lexCharacter_cons {state after : Lexing} {character : Char}
    (taken : lexCharacter state character = some after) (rest : List Char) :
    (character :: rest).foldlM lexCharacter state = rest.foldlM lexCharacter after := by
  rw [List.foldlM_cons, taken]
  rfl

/-- `lexCharacter` makes some tokens of a text before what follows it. -/
def Lexes (characters : List Char) (tokens : List Token) (rest : List Char) : Prop :=
  ∀ earlier, (characters ++ rest).foldlM lexCharacter ⟨.blank, earlier⟩ =
    rest.foldlM lexCharacter ⟨.blank, tokens.reverse ++ earlier⟩

theorem Lexes.append {first second : List Char} {tokens others : List Token} {rest : List Char}
    (former : Lexes first tokens (second ++ rest)) (latter : Lexes second others rest) :
    Lexes (first ++ second) (tokens ++ others) rest := by
  intro earlier
  rw [List.append_assoc, former, latter, List.reverse_append, List.append_assoc]

theorem lexes_blanks (count : Nat) (rest : List Char) :
    Lexes (List.replicate count ' ') [] rest := by
  induction count with
  | zero => exact fun _ => rfl
  | succ count inductionHypothesis =>
    intro earlier
    rw [← inductionHypothesis]
    rfl

/-- A new line has no tokens. -/
theorem lexes_lineStart (level : Nat) (rest : List Char) :
    Lexes (lineStart level).toList [] rest := by
  intro earlier
  simp only [lineStart, String.toList_append, String.toList_ofList]
  exact lexes_blanks (2 * level) rest earlier

/-! ### Words -/

/-- What follows a word: a character that is no `isWordCharacter`. -/
def EndsWord : List Char → Prop
  | [] => False
  | character :: _ => isWordCharacter character = false

theorem lexBlank_of_isWordCharacter {character : Char} (inside : isWordCharacter character = true)
    (earlier : List Token) : lexBlank earlier character = some ⟨.word [character], earlier⟩ := by
  have notBlank : isBlank character = false := by
    by_contra blank
    simp only [isBlank, Bool.or_eq_true, beq_iff_eq, Bool.not_eq_false] at blank
    rcases blank with ((rfl | rfl) | rfl) | rfl <;> exact absurd inside (by decide)
  have notQuote : character ≠ '"' := by
    rintro rfl
    exact absurd inside (by decide)
  rw [lexBlank, notBlank, if_neg Bool.false_ne_true, if_neg notQuote, if_pos inside]

theorem foldlM_lexCharacter_word {characters : List Char}
    (inside : ∀ character ∈ characters, isWordCharacter character = true) (reversed : List Char)
    (earlier : List Token) (rest : List Char) :
    (characters ++ rest).foldlM lexCharacter ⟨.word reversed, earlier⟩ =
      rest.foldlM lexCharacter ⟨.word (characters.reverse ++ reversed), earlier⟩ := by
  induction characters generalizing reversed with
  | nil => rfl
  | cons character others inductionHypothesis =>
    have taken : lexCharacter ⟨.word reversed, earlier⟩ character =
        some ⟨.word (character :: reversed), earlier⟩ :=
      if_pos (inside character List.mem_cons_self)
    rw [List.cons_append, foldlM_lexCharacter_cons taken,
      inductionHypothesis fun other member => inside other (List.mem_cons_of_mem _ member),
      List.reverse_cons, List.append_assoc, List.singleton_append]

theorem lexes_word {characters rest : List Char} {value : Json} (nonempty : characters ≠ [])
    (inside : ∀ character ∈ characters, isWordCharacter character = true)
    (known : word? characters = some value) (ends : EndsWord rest) :
    Lexes characters [.word value] rest := by
  intro earlier
  obtain ⟨first, others, rfl⟩ := List.exists_cons_of_ne_nil nonempty
  obtain ⟨next, later, rfl⟩ : ∃ next later, rest = next :: later := by
    cases rest with
    | nil => exact ends.elim
    | cons next later => exact ⟨next, later, rfl⟩
  have begun : lexCharacter ⟨.blank, earlier⟩ first = some ⟨.word [first], earlier⟩ :=
    lexBlank_of_isWordCharacter (inside first List.mem_cons_self) earlier
  have ended : lexCharacter ⟨.word (others.reverse ++ [first]), earlier⟩ next =
      lexCharacter ⟨.blank, .word value :: earlier⟩ next := by
    have whole : (others.reverse ++ [first]).reverse = first :: others := by simp
    unfold lexCharacter
    dsimp only
    rw [show isWordCharacter next = false from ends, if_neg Bool.false_ne_true, whole, known]
    rfl
  rw [List.cons_append, foldlM_lexCharacter_cons begun,
    foldlM_lexCharacter_word fun other member => inside other (List.mem_cons_of_mem _ member),
    List.foldlM_cons, ended]
  rfl

theorem lexes_null {rest : List Char} (ends : EndsWord rest) :
    Lexes "null".toList [.word .null] rest :=
  lexes_word (by decide) (List.all_eq_true.mp rfl) rfl ends

theorem lexes_bool (value : Bool) {rest : List Char} (ends : EndsWord rest) :
    Lexes (if value then "true" else "false").toList [.word (.bool value)] rest := by
  cases value with
  | false => exact lexes_word (by decide) (List.all_eq_true.mp rfl) rfl ends
  | true => exact lexes_word (by decide) (List.all_eq_true.mp rfl) rfl ends

/-! ### Numbers -/

/-- A number is written without leading zeros. -/
theorem toDigits_ne_zero_cons (value : Nat) (second : Char) (others : List Char) :
    Nat.toDigits 10 value ≠ '0' :: second :: others := by
  induction value using Nat.base_induction 10 (by decide) generalizing second others with
  | single value small =>
    rw [Nat.toDigits_of_lt_base small]
    exact fun same => nomatch (List.cons.inj same).2
  | digit upper last small positive inductionHypothesis =>
    rw [← Nat.toDigits_append_toDigits (by decide) positive small, Nat.toDigits_of_lt_base small]
    intro same
    match digits : Nat.toDigits 10 upper with
    | [] => exact Nat.toDigits_ne_nil digits
    | [only] =>
      rw [digits, List.cons_append, List.cons.injEq] at same
      have back : Nat.ofDigitChars 10 (Nat.toDigits 10 upper) 0 = upper :=
        Nat.ofDigitChars_ten_toDigits
      rw [digits, same.1] at back
      exact absurd back (Nat.ne_of_lt positive)
    | first :: next :: more =>
      rw [digits, List.cons_append, List.cons.injEq] at same
      exact inductionHypothesis next more (same.1 ▸ digits)

theorem isDigit_of_mem {value : Nat} : ∀ digit ∈ Nat.toDigits 10 value, digit.isDigit = true :=
  fun _ => Nat.isDigit_of_mem_toDigits (by decide) (by decide)

theorem integerPart_toDigits (value : Nat) :
    integerPart (Nat.toDigits 10 value) = some (Nat.toDigits 10 value, []) := by
  rw [integerPart, List.takeWhile_eq_self_iff.mpr isDigit_of_mem,
    List.dropWhile_eq_nil_iff.mpr isDigit_of_mem]
  split
  · rename_i nothing
    exact absurd nothing Nat.toDigits_ne_nil
  · rename_i second others same
    exact absurd same (toDigits_ne_zero_cons value second others)
  · rfl

theorem valueOfDigits_toDigits (value : Nat) : valueOfDigits (Nat.toDigits 10 value) = value := by
  have back : Nat.ofDigitChars 10 (Nat.toDigits 10 value) 0 = value :=
    Nat.ofDigitChars_ten_toDigits
  rw [valueOfDigits, digitValues, List.foldl_map]
  simpa only [Nat.ofDigitChars, Nat.mul_comm] using back

theorem number?_toDigits (value : Nat) (fits : value < UInt64.size) :
    number? (Nat.toDigits 10 value) = some (.int value) := by
  have unsigned : number? (Nat.toDigits 10 value) =
      some (numberValue false (Nat.toDigits 10 value) none none) := by
    have notSigned : ∀ others, Nat.toDigits 10 value ≠ '-' :: others := by
      intro others signed
      have isDigit : Char.isDigit '-' = true :=
        @isDigit_of_mem value '-' (signed ▸ List.mem_cons_self)
      exact absurd isDigit (by decide)
    simp only [number?, integerPart_toDigits]
    rfl
  rw [unsigned, numberValue, valueOfDigits_toDigits]
  exact congrArg some (if_pos fits)

theorem number?_neg_toDigits (value : Nat) (positive : 0 < value)
    (fits : Int64.minValue.toInt ≤ -(value : Int)) :
    number? ('-' :: Nat.toDigits 10 value) = some (.int (-(value : Int))) := by
  have signed : number? ('-' :: Nat.toDigits 10 value) =
      some (numberValue true (Nat.toDigits 10 value) none none) := by
    simp only [number?, integerPart_toDigits]
    rfl
  have inRange : 0 < value ∧ Int64.minValue.toInt ≤ -(value : Int) := ⟨positive, fits⟩
  rw [signed, numberValue, valueOfDigits_toDigits]
  exact congrArg some (if_pos inRange)

/-- What begins with a sign or a digit is a number, if it is a word. -/
theorem word?_eq_number? {first : Char} {others : List Char}
    (numeric : first.isDigit = true ∨ first = '-') :
    word? (first :: others) = number? (first :: others) := by
  have notLetter : ∀ {letter : Char} {letters : List Char},
      String.ofList (first :: others) = String.ofList (letter :: letters) →
        letter.isDigit = true ∨ letter = '-' := by
    intro letter letters same
    rw [String.ofList_inj, List.cons.injEq] at same
    exact same.1 ▸ numeric
  unfold word?
  split
  · rename_i same
    exact absurd (@notLetter 'n' ['u', 'l', 'l'] same) (by decide)
  · rename_i same
    exact absurd (@notLetter 't' ['r', 'u', 'e'] same) (by decide)
  · rename_i same
    exact absurd (@notLetter 'f' ['a', 'l', 's', 'e'] same) (by decide)
  · rfl

/-- The whole numbers that are read as such: those of `Int64` and of `UInt64`. -/
def WholeNumber (value : Int) : Prop := Int64.minValue.toInt ≤ value ∧ value < UInt64.size

instance (value : Int) : Decidable (WholeNumber value) := inferInstanceAs (Decidable (_ ∧ _))

theorem isWordCharacter_of_isDigit {digit : Char} (isDigit : digit.isDigit = true) :
    isWordCharacter digit = true := by
  simp [isWordCharacter, Char.isAlphanum, isDigit]

theorem lexes_toDigits {value : Nat} (fits : value < UInt64.size) {rest : List Char}
    (ends : EndsWord rest) : Lexes (Nat.toDigits 10 value) [.word (.int value)] rest := by
  have read : word? (Nat.toDigits 10 value) = some (.int value) := by
    rw [← number?_toDigits value fits]
    have isDigit := @isDigit_of_mem value
    cases digits : Nat.toDigits 10 value with
    | nil => exact absurd digits Nat.toDigits_ne_nil
    | cons first others =>
      exact word?_eq_number? (.inl (isDigit first (digits ▸ List.mem_cons_self)))
  exact lexes_word Nat.toDigits_ne_nil
    (fun digit member => isWordCharacter_of_isDigit (isDigit_of_mem digit member)) read ends

theorem lexes_neg_toDigits {value : Nat} (positive : 0 < value)
    (fits : Int64.minValue.toInt ≤ -(value : Int)) {rest : List Char} (ends : EndsWord rest) :
    Lexes ('-' :: Nat.toDigits 10 value) [.word (.int (-(value : Int)))] rest := by
  have read : word? ('-' :: Nat.toDigits 10 value) = some (.int (-(value : Int))) :=
    (word?_eq_number? (.inr rfl)).trans (number?_neg_toDigits value positive fits)
  refine lexes_word (List.cons_ne_nil _ _) (fun character member => ?_) read ends
  rcases List.mem_cons.mp member with rfl | member
  · rfl
  · exact isWordCharacter_of_isDigit (isDigit_of_mem character member)

theorem lexes_int {value : Int} (whole : WholeNumber value) {rest : List Char}
    (ends : EndsWord rest) : Lexes (toString value).toList [.word (.int value)] rest := by
  obtain ⟨low, high⟩ := whole
  rw [Int.toString_eq_repr, Int.repr_eq_if]
  split
  case isTrue natural =>
    obtain ⟨size, rfl⟩ := Int.eq_ofNat_of_zero_le natural
    rw [Int.toNat_natCast, Nat.toList_repr]
    exact lexes_toDigits (Int.ofNat_lt.mp high) ends
  case isFalse negative =>
    obtain ⟨size, opposite⟩ := Int.eq_ofNat_of_zero_le (a := -value) (by omega)
    have same : value = -(size : Int) := by omega
    subst same
    rw [Int.neg_neg, Int.toNat_natCast, String.toList_append, Nat.toList_repr]
    exact lexes_neg_toDigits (by omega) low ends

/-! ### Strings -/

/-- The `Piece`s of a literal that stand for a character on their own. -/
inductive Stands : Piece → Char → Prop
  | character (value : Char) : Stands (.character value) value
  | control (value : Char) (below : value.toNat < 0x20) : Stands (.unit value.toNat) value

theorem assemble_unit {value : Nat} (below : value < 0xd800) (rest : List Piece) :
    assemble (.unit value :: rest) = (assemble rest).map (Char.ofNat value :: ·) := by
  have notHigh : isHighSurrogate value = false := by
    simp [isHighSurrogate]
    omega
  have notLow : isLowSurrogate value = false := by
    simp [isLowSurrogate]
    omega
  match rest with
  | [] => simp [assemble, notHigh, notLow]
  | .character _ :: _ => simp [assemble, notHigh, notLow]
  | .unit _ :: _ => simp [assemble, notHigh, notLow]

theorem assemble_of_stands {pieces : List Piece} {characters : List Char}
    (stand : List.Forall₂ Stands pieces characters) : assemble pieces = some characters := by
  induction stand with
  | nil => rfl
  | cons first _ inductionHypothesis =>
    cases first with
    | character value => rw [assemble, inductionHypothesis, Option.map_some]
    | control value below =>
      rw [assemble_unit (by omega), inductionHypothesis, Option.map_some, Char.ofNat_toNat]

theorem hexDigit?_digitChar : ∀ digit < 16, hexDigit? (Nat.digitChar digit) = some digit := by
  decide

/-- Inside a literal, the two last digits of an escape complete its unit. -/
theorem foldlM_lexCharacter_hex {value : Nat} (below : value < 0x20) (pieces : List Piece)
    (earlier : List Token) (rest : List Char) :
    (Nat.digitChar (value / 16) :: Nat.digitChar (value % 16) :: rest).foldlM lexCharacter
        ⟨.text (.hex 2 0) pieces, earlier⟩ =
      rest.foldlM lexCharacter ⟨.text .plain (.unit value :: pieces), earlier⟩ := by
  have upperDigit := hexDigit?_digitChar (value / 16) (by omega)
  have lowerDigit := hexDigit?_digitChar (value % 16) (by omega)
  have upper : lexCharacter ⟨.text (.hex 2 0) pieces, earlier⟩ (Nat.digitChar (value / 16)) =
      some ⟨.text (.hex 3 (value / 16)) pieces, earlier⟩ := by
    simp [lexCharacter, lexText, upperDigit]
  have lower : lexCharacter ⟨.text (.hex 3 (value / 16)) pieces, earlier⟩
      (Nat.digitChar (value % 16)) = some ⟨.text .plain (.unit value :: pieces), earlier⟩ := by
    simp [lexCharacter, lexText, lowerDigit, Nat.div_add_mod']
  rw [foldlM_lexCharacter_cons upper, foldlM_lexCharacter_cons lower]

/-- Inside a literal, a written character is read as a piece that stands for it. -/
theorem lexes_writtenCharacter (character : Char) :
    ∃ piece, Stands piece character ∧ ∀ pieces earlier rest,
      ((writtenCharacter character).toList ++ rest).foldlM lexCharacter
          ⟨.text .plain pieces, earlier⟩ =
        rest.foldlM lexCharacter ⟨.text .plain (piece :: pieces), earlier⟩ := by
  unfold writtenCharacter
  split
  case h_8 notQuote notBackslash _ _ _ _ _ =>
    split
    case isTrue control =>
      refine ⟨.unit character.toNat, .control character control, fun pieces earlier rest => ?_⟩
      have begun : ∀ following, ("\\u00".toList ++ following).foldlM lexCharacter
          ⟨.text .plain pieces, earlier⟩ =
            following.foldlM lexCharacter ⟨.text (.hex 2 0) pieces, earlier⟩ := fun _ => rfl
      rw [String.toList_append, List.append_assoc, begun, String.toList_ofList]
      exact foldlM_lexCharacter_hex control pieces earlier rest
    case isFalse plain =>
      refine ⟨.character character, .character character, fun pieces earlier rest => ?_⟩
      have taken : lexCharacter ⟨.text .plain pieces, earlier⟩ character =
          some ⟨.text .plain (.character character :: pieces), earlier⟩ := by
        simp only [lexCharacter, lexText]
        rw [if_neg notQuote, if_neg notBackslash, if_neg plain]
      rw [Char.toString, String.toList_singleton, List.singleton_append]
      exact foldlM_lexCharacter_cons taken rest
  -- the other escapes are single letters, which the reader takes one by one
  all_goals exact ⟨.character _, .character _, fun _ _ _ => rfl⟩

theorem lexes_writtenCharacters (characters : List Char) :
    ∃ pieces, List.Forall₂ Stands pieces characters ∧ ∀ former earlier rest,
      ((String.join (characters.map writtenCharacter)).toList ++ rest).foldlM lexCharacter
          ⟨.text .plain former, earlier⟩ =
        rest.foldlM lexCharacter ⟨.text .plain (pieces.reverse ++ former), earlier⟩ := by
  induction characters with
  | nil => exact ⟨[], .nil, fun _ _ _ => rfl⟩
  | cons character others inductionHypothesis =>
    obtain ⟨piece, stands, first⟩ := lexes_writtenCharacter character
    obtain ⟨pieces, stand, further⟩ := inductionHypothesis
    refine ⟨piece :: pieces, .cons stands stand, fun former earlier rest => ?_⟩
    rw [List.map_cons, String.join_cons, String.toList_append, List.append_assoc, first, further,
      List.reverse_cons, List.append_assoc]
    rfl

/-- A written string is read as this string. -/
theorem lexes_writtenString (text : String) (rest : List Char) :
    Lexes (writtenString text).toList [.text (some text)] rest := by
  intro earlier
  obtain ⟨pieces, stand, read⟩ := lexes_writtenCharacters text.toList
  have opened : ∀ following, ("\"".toList ++ following).foldlM lexCharacter ⟨.blank, earlier⟩ =
      following.foldlM lexCharacter ⟨.text .plain [], earlier⟩ := fun _ => rfl
  have closed : lexCharacter ⟨.text .plain (pieces.reverse ++ []), earlier⟩ '"' =
      some ⟨.blank, .text (some text) :: earlier⟩ := by
    simp [lexCharacter, lexText, assemble_of_stands stand]
  rw [writtenString, String.toList_append, String.toList_append, List.append_assoc,
    List.append_assoc, opened, read]
  exact foldlM_lexCharacter_cons closed rest

end Json

end BytecodeFlow
