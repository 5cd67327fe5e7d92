/-
This file reads laid-out JSON text back. A value is `Restored` if its text, at
any level of nesting, is read as tokens from which it is built again wherever
it stands. Doubles are left out: all values that are made of texts, truth
values and whole numbers of 64 bits (`Restorable`) are restored.
-/

import BytecodeFlow.Proofs.Json.Lexing

namespace BytecodeFlow

namespace Json

/-! ### Building from tokens -/

/-- Tokens of which `build` makes a value, wherever it stands. -/
def Builds (tokens : List Token) (json : Json) : Prop :=
  ∀ frames, tokens.foldlM build ⟨.value, frames⟩ = some (place json frames)

theorem build_itemOrClose {frames : List Frame} {token : Token} {after : Building}
    (built : build ⟨.value, frames⟩ token = some after) :
    build ⟨.itemOrClose, frames⟩ token = some after := by
  cases token with
  | closeArray => cases built
  | _ => exact built

theorem build_keyOrClose {frames : List Frame} {token : Token} {after : Building}
    (built : build ⟨.key, frames⟩ token = some after) :
    build ⟨.keyOrClose, frames⟩ token = some after := by
  cases token with
  | closeObject =>
    have refused : buildKey frames .closeObject = none := by
      unfold buildKey
      split
      · rename_i impossible
        cases impossible
      · rfl
    exact absurd (refused.symm.trans built) (Option.some_ne_none after).symm
  | _ => exact built

/-- What may come after a comma may as well come first in an array or object. -/
theorem foldlM_build_first {later first : Expecting} {frames : List Frame}
    (accepts : ∀ {token after}, build ⟨later, frames⟩ token = some after →
      build ⟨first, frames⟩ token = some after)
    {tokens : List Token} {after : Building}
    (built : tokens.foldlM build ⟨later, frames⟩ = some after) (moved : after.expecting ≠ later) :
    tokens.foldlM build ⟨first, frames⟩ = some after := by
  cases tokens with
  | nil =>
    cases built
    exact absurd rfl moved
  | cons token others =>
    rw [List.foldlM_cons] at built ⊢
    obtain ⟨next, taken, further⟩ := Option.bind_eq_some_iff.mp built
    exact Option.bind_eq_some_iff.mpr ⟨next, accepts taken, further⟩

/-! ### Values -/

/-- A value that can be read back from its text: the text `Lexes` into tokens from which `Builds`
gets the value. -/
def Restored (json : Json) : Prop :=
  ∃ tokens, Builds tokens json ∧
    ∀ level rest, EndsWord rest → Lexes (prettyAt level json).toList tokens rest

theorem EndsWord.append {characters : List Char} (ends : EndsWord characters) (rest : List Char) :
    EndsWord (characters ++ rest) := by
  cases characters with
  | nil => exact ends.elim
  | cons character others => exact ends

theorem endsWord_lineStart (level : Nat) : EndsWord (lineStart level).toList := by
  simp only [lineStart, String.toList_append]
  exact rfl

/-- What stands between an opening and a closing mark on a line of its own. -/
theorem Lexes.enclosed {opening closing : Char} {first last : Token} {inner : List Char}
    {tokens : List Token} {rest : List Char}
    (opens : ∀ following, Lexes [opening] [first] following) (closes : Lexes [closing] [last] rest)
    (lexes : ∀ following, EndsWord following → Lexes inner tokens following) (level : Nat) :
    Lexes ([opening] ++ (inner ++ ((lineStart level).toList ++ [closing])))
      ([first] ++ (tokens ++ [last])) rest := by
  have ends := ((endsWord_lineStart level).append [closing]).append rest
  exact (opens _).append ((lexes _ ends).append ((lexes_lineStart level _).append closes))

theorem endsWord_comma (rest : List Char) : EndsWord (',' :: rest) := rfl

/-- The values that are read back: no doubles, and of the whole numbers each `WholeNumber`. -/
inductive Restorable : Json → Prop
  | null : Restorable .null
  | bool (value : Bool) : Restorable (.bool value)
  | int {value : Int} (whole : WholeNumber value) : Restorable (.int value)
  | string (text : String) : Restorable (.string text)
  | array {items : List Json} (each : ∀ item ∈ items, Restorable item) : Restorable (.array items)
  | object {members : List (String × Json)} (each : ∀ member ∈ members, Restorable member.2) :
    Restorable (.object members)

/-- The items of an array that is open, if each is `Restored`. -/
theorem restored_items {items : List Json} (nonempty : items ≠ [])
    (each : ∀ item ∈ items, Restored item) :
    ∃ tokens,
      (∀ earlier frames, tokens.foldlM build ⟨.value, .array earlier :: frames⟩ =
        some ⟨.commaOrClose, .array (items.reverse ++ earlier) :: frames⟩) ∧
      ∀ level rest, EndsWord rest → Lexes (prettyItems level items).toList tokens rest := by
  induction items with
  | nil => exact absurd rfl nonempty
  | cons item others inductionHypothesis =>
    obtain ⟨tokens, builds, lexes⟩ := each item List.mem_cons_self
    cases others with
    | nil =>
      refine ⟨tokens, fun earlier frames => builds _, fun level rest ends => ?_⟩
      rw [prettyItems, String.toList_append]
      exact (lexes_lineStart level _).append (lexes level rest ends)
    | cons next later =>
      obtain ⟨further, builtFurther, lexesFurther⟩ := inductionHypothesis (List.cons_ne_nil _ _)
        fun other member => each other (List.mem_cons_of_mem _ member)
      refine ⟨tokens ++ .comma :: further, fun earlier frames => ?_, fun level rest ends => ?_⟩
      · rw [List.foldlM_append, builds, List.reverse_cons, List.append_assoc]
        exact builtFurther (item :: earlier) frames
      · rw [prettyItems]
        simp only [String.toList_append, List.append_assoc]
        have comma : Lexes [','] [.comma] ((prettyItems level (next :: later)).toList ++ rest) :=
          fun _ => rfl
        exact (lexes_lineStart level _).append
          ((lexes level _ (endsWord_comma _)).append (comma.append (lexesFurther level rest ends)))

/-- A member of an object that is open, if its value is `Restored`. -/
theorem restored_member (name : String) {value : Json} (restored : Restored value) :
    ∃ tokens,
      (∀ earlier frames, tokens.foldlM build ⟨.key, .object earlier true none :: frames⟩ =
        some ⟨.commaOrClose, .object ((name, value) :: earlier) true none :: frames⟩) ∧
      ∀ level rest, EndsWord rest →
        Lexes ((writtenString name).toList ++ (": ".toList ++ (prettyAt level value).toList))
          tokens rest := by
  obtain ⟨tokens, builds, lexes⟩ := restored
  have colon : ∀ rest, Lexes ": ".toList [.colon] rest := fun _ _ => rfl
  refine ⟨[.text (some name)] ++ ([.colon] ++ tokens), fun earlier frames => ?_,
    fun level rest ends => ?_⟩
  · exact builds (.object earlier true (some name) :: frames)
  · exact (lexes_writtenString name _).append ((colon _).append (lexes level rest ends))

/-- The members of an object that is open, if their values are `Restored`. -/
theorem restored_members {members : List (String × Json)} (nonempty : members ≠ [])
    (each : ∀ member ∈ members, Restored member.2) :
    ∃ tokens,
      (∀ earlier frames, tokens.foldlM build ⟨.key, .object earlier true none :: frames⟩ =
        some ⟨.commaOrClose, .object (members.reverse ++ earlier) true none :: frames⟩) ∧
      ∀ level rest, EndsWord rest → Lexes (prettyMembers level members).toList tokens rest := by
  induction members with
  | nil => exact absurd rfl nonempty
  | cons member others inductionHypothesis =>
    obtain ⟨name, value⟩ := member
    obtain ⟨tokens, built, lexes⟩ := restored_member name (each (name, value) List.mem_cons_self)
    cases others with
    | nil =>
      refine ⟨tokens, built, fun level rest ends => ?_⟩
      rw [prettyMembers]
      simp only [String.toList_append, List.append_assoc]
      exact (lexes_lineStart level _).append (lexes level rest ends)
    | cons next later =>
      obtain ⟨further, builtFurther, lexesFurther⟩ := inductionHypothesis (List.cons_ne_nil _ _)
        fun other member => each other (List.mem_cons_of_mem _ member)
      refine ⟨tokens ++ .comma :: further, fun earlier frames => ?_, fun level rest ends => ?_⟩
      · rw [List.foldlM_append, built, List.reverse_cons, List.append_assoc]
        exact builtFurther ((name, value) :: earlier) frames
      · have comma : Lexes [','] [.comma]
            ((prettyMembers level (next :: later)).toList ++ rest) := fun _ => rfl
        have layout : (prettyMembers level ((name, value) :: next :: later)).toList =
            (lineStart level).toList ++ (((writtenString name).toList ++
              (": ".toList ++ (prettyAt level value).toList)) ++
                ([','] ++ (prettyMembers level (next :: later)).toList)) := by
          rw [prettyMembers]
          simp only [String.toList_append, List.append_assoc]
          rfl
        rw [layout]
        exact (lexes_lineStart level _).append
          ((lexes level _ (endsWord_comma _)).append (comma.append (lexesFurther level rest ends)))

theorem Restorable.restored {json : Json} (restorable : Restorable json) : Restored json := by
  induction restorable with
  | null => exact ⟨[.word .null], fun _ => rfl, fun _ _ => lexes_null⟩
  | bool value => exact ⟨[.word (.bool value)], fun _ => rfl, fun _ _ => lexes_bool value⟩
  | @int value whole => exact ⟨[.word (.int value)], fun _ => rfl, fun _ _ => lexes_int whole⟩
  | string text =>
    exact ⟨[.text (some text)], fun _ => rfl, fun _ rest _ => lexes_writtenString text rest⟩
  | @array items _ each =>
    cases items with
    | nil =>
      refine ⟨[.openArray, .closeArray], fun _ => rfl, fun level rest _ => ?_⟩
      rw [prettyAt]
      exact fun _ => rfl
    | cons first others =>
      obtain ⟨tokens, built, lexes⟩ := restored_items (List.cons_ne_nil first others) each
      refine ⟨[.openArray] ++ (tokens ++ [.closeArray]), fun frames => ?_, fun level rest _ => ?_⟩
      · have opened := foldlM_build_first build_itemOrClose (built [] frames) nofun
        have closed : (tokens ++ [Token.closeArray]).foldlM build
            ⟨.itemOrClose, .array [] :: frames⟩ =
              some (place (.array (first :: others)) frames) := by
          rw [List.foldlM_append, opened]
          simp [build, closeArray]
        exact closed
      · rw [prettyAt]
        simp only [String.toList_append, List.append_assoc]
        exact .enclosed (fun _ _ => rfl) (fun _ => rfl) (lexes (level + 1)) level
  | @object members _ each =>
    cases members with
    | nil =>
      refine ⟨[.openObject, .closeObject], fun _ => rfl, fun level rest _ => ?_⟩
      rw [prettyAt]
      exact fun _ => rfl
    | cons first others =>
      obtain ⟨tokens, built, lexes⟩ := restored_members (List.cons_ne_nil first others) each
      refine ⟨[.openObject] ++ (tokens ++ [.closeObject]), fun frames => ?_, fun level rest _ => ?_⟩
      · have opened := foldlM_build_first build_keyOrClose (built [] frames) nofun
        have closed : (tokens ++ [Token.closeObject]).foldlM build
            ⟨.keyOrClose, .object [] true none :: frames⟩ =
              some (place (.object (first :: others)) frames) := by
          rw [List.foldlM_append, opened]
          simp [build, closeObject]
        exact closed
      · rw [prettyAt]
        simp only [String.toList_append, List.append_assoc]
        exact .enclosed (fun _ _ => rfl) (fun _ => rfl) (lexes (level + 1)) level

/-- The text that `pretty` makes of a `Restorable` value, with the new line that ends it, is read as
this value. -/
theorem Restorable.parse?_pretty {json : Json} (restorable : Restorable json) :
    parse? (json.pretty ++ "\n") = some json := by
  obtain ⟨tokens, builds, lexes⟩ := restorable.restored
  have read : (json.pretty ++ "\n").toList.foldlM lexCharacter ⟨.blank, []⟩ =
      some ⟨.blank, tokens.reverse⟩ := by
    rw [String.toList_append]
    refine (lexes 0 ['\n'] rfl []).trans ?_
    rw [List.append_nil]
    rfl
  have cut : tokens? (json.pretty ++ "\n") = some tokens := by
    rw [tokens?, read]
    exact congrArg some tokens.reverse_reverse
  have built : tokens.foldlM build ⟨.value, []⟩ = some ⟨.ending json, []⟩ := builds []
  rw [parse?, cut]
  simp [built]

end Json

end BytecodeFlow
