/-
This file shows which type names denote the same type. A name is a base name
with marks for arrays and references after it (`markedName`), and it can be
taken apart in one way only (`Spelled`). The type keeps all of it: spelled out
as a name again (`spelling`), it gives the marks and the base name, except that
integers of the size of a pointer are spelled like those of 64 bits.
-/

import Mathlib.Data.List.Induction
import Mathlib.Logic.ExistsUnique
import Mathlib.Tactic.Common
import BytecodeFlow.Target.Typ

namespace BytecodeFlow

/-! ### Names -/

/-- A mark at the end of a type name. -/
inductive TypeMark where
  | array
  | reference
deriving DecidableEq, Repr

namespace TypeMark

def text : TypeMark → String
  | .array => "[]"
  | .reference => "&"

/-- What a `TypeMark` makes of a type. -/
def wrap : TypeMark → Typ → Typ
  | .array, element => .pointer (.array element)
  | .reference, referenced => .pointer referenced

/-- Different `TypeMark`s end in different characters. -/
theorem eq_of_append_text {first second : String} {left right : TypeMark}
    (same : first ++ left.text = second ++ right.text) : left = right ∧ first = second := by
  have characters := congrArg (fun name : String => name.toList.reverse) same
  simp only [String.toList_append, List.reverse_append] at characters
  cases left <;> cases right
  all_goals simp [text] at characters
  all_goals exact ⟨rfl, String.toList_inj.mp characters⟩

end TypeMark

/-- A base name with the `text` of each mark after it. -/
def markedName (base : String) (marks : List TypeMark) : String :=
  marks.foldl (fun name mark => name ++ mark.text) base

/-- A base name has no `TypeMark` at its end. -/
def IsBareName (base : String) : Prop :=
  ∀ (rest : String) (mark : TypeMark), base ≠ rest ++ mark.text

/-- A name is spelled as a base name and the marks after it, all of them, since `IsBareName` holds
of the base. -/
structure Spelled (name base : String) (marks : List TypeMark) : Prop where
  bare : IsBareName base
  whole : name = markedName base marks

theorem markedName_concat (base : String) (marks : List TypeMark) (mark : TypeMark) :
    markedName base (marks ++ [mark]) = markedName base marks ++ mark.text := by
  rw [markedName, List.foldl_append]
  rfl

/-- A `markedName` of a bare name is taken apart in one way only. -/
theorem eq_of_markedName_eq {base other : String} (bare : IsBareName base)
    (otherBare : IsBareName other) {marks otherMarks : List TypeMark}
    (same : markedName base marks = markedName other otherMarks) :
    base = other ∧ marks = otherMarks := by
  induction marks using List.reverseRecOn generalizing otherMarks with
  | nil =>
    cases otherMarks using List.reverseRecOn with
    | nil => exact ⟨same, rfl⟩
    | append_singleton others last =>
      rw [markedName_concat] at same
      exact absurd same (bare _ last)
  | append_singleton marks mark inductionHypothesis =>
    rw [markedName_concat] at same
    cases otherMarks using List.reverseRecOn with
    | nil => exact absurd same.symm (otherBare _ mark)
    | append_singleton others last =>
      rw [markedName_concat] at same
      obtain ⟨rfl, before⟩ := TypeMark.eq_of_append_text same
      obtain ⟨rfl, rfl⟩ := inductionHypothesis before
      exact ⟨rfl, rfl⟩

namespace Typ

/-! ### Types of names -/

theorem ofName_append_text (name : String) (mark : TypeMark) :
    ofName (name ++ mark.text) = mark.wrap (ofName name) := by
  unfold ofName
  rw [String.toList_append, List.reverse_append]
  cases mark <;> rfl

/-- A name that ends in a mark, its characters given from the last to the first. -/
theorem ofList_reverse_mark (mark : TypeMark) (rest : List Char) :
    String.ofList (mark.text.toList.reverse ++ rest).reverse =
      String.ofList rest.reverse ++ mark.text := by
  rw [List.reverse_append, List.reverse_reverse, String.ofList_append, String.ofList_toList]

/-- A name of which `IsBareName` holds is read as a whole. -/
theorem ofName_of_bare {base : String} (bare : IsBareName base) :
    ofName base = ofBaseName base := by
  have ends : ∀ (mark : TypeMark) (rest : List Char),
      base.toList.reverse ≠ mark.text.toList.reverse ++ rest := by
    intro mark rest reversed
    have whole := ofList_reverse_mark mark rest
    rw [← reversed, List.reverse_reverse, String.ofList_toList] at whole
    exact bare _ mark whole
  unfold ofName ofReversedName
  split
  · exact absurd ‹_› (ends .array _)
  · exact absurd ‹_› (ends .reference _)
  · rw [List.reverse_reverse, String.ofList_toList]

/-- The type of a name is made of the type of its base name, mark by mark. -/
theorem ofName_markedName {base : String} (bare : IsBareName base) (marks : List TypeMark) :
    ofName (markedName base marks) =
      marks.foldl (fun typ mark => mark.wrap typ) (ofBaseName base) := by
  induction marks using List.reverseRecOn with
  | nil => exact ofName_of_bare bare
  | append_singleton marks mark inductionHypothesis =>
    rw [markedName_concat, ofName_append_text, inductionHypothesis, List.foldl_append]
    rfl

theorem exists_spelled_reversed (reversed : List Char) :
    ∃ base marks, Spelled (String.ofList reversed.reverse) base marks := by
  have marked : ∀ {rest : List Char} (mark : TypeMark),
      (∃ base marks, Spelled (String.ofList rest.reverse) base marks) →
        ∃ base marks, Spelled
          (String.ofList (mark.text.toList.reverse ++ rest).reverse) base marks := by
    rintro rest mark ⟨base, marks, bare, whole⟩
    refine ⟨base, marks ++ [mark], bare, ?_⟩
    rw [ofList_reverse_mark, whole, markedName_concat]
  fun_induction ofReversedName reversed with
  | case1 element inductionHypothesis => exact marked .array inductionHypothesis
  | case2 referenced inductionHypothesis => exact marked .reference inductionHypothesis
  | case3 base notArray notReference =>
    refine ⟨String.ofList base.reverse, [], fun rest mark whole => ?_, rfl⟩
    have reversed : base = mark.text.toList.reverse ++ rest.toList.reverse := by
      rw [← List.reverse_append, ← String.toList_append, ← whole, String.toList_ofList,
        List.reverse_reverse]
    cases mark with
    | array => exact notArray _ reversed
    | reference => exact notReference _ reversed

/-- Every name is `Spelled` in one way. -/
theorem existsUnique_spelled (name : String) :
    ∃! parts : String × List TypeMark, Spelled name parts.1 parts.2 := by
  obtain ⟨base, marks, spelled⟩ := exists_spelled_reversed name.toList.reverse
  rw [List.reverse_reverse, String.ofList_toList] at spelled
  refine ⟨(base, marks), spelled, fun other otherSpelled => ?_⟩
  obtain ⟨sameBase, sameMarks⟩ := eq_of_markedName_eq otherSpelled.bare spelled.bare
    (otherSpelled.whole.symm.trans spelled.whole)
  exact Prod.ext sameBase sameMarks

/-! ### Names of types -/

/-- The base name that stands for a base name: integers of the size of a pointer have 64 bits. -/
def canonicalName (base : String) : String :=
  match base with
  | "System.IntPtr" => "System.Int64"
  | "System.UIntPtr" => "System.UInt64"
  | _ => base

theorem isBareName_canonicalName {base : String} (bare : IsBareName base) :
    IsBareName (canonicalName base) := by
  have wide : IsBareName "System.Int64" ∧ IsBareName "System.UInt64" := by
    constructor
    all_goals
      intro rest mark same
      have characters := congrArg (fun name : String => name.toList.reverse) same
      rw [String.toList_append, List.reverse_append] at characters
      cases mark <;> cases characters
  unfold canonicalName
  split
  · exact wide.1
  · exact wide.2
  · exact bare

theorem ofBaseName_canonicalName (base : String) :
    ofBaseName (canonicalName base) = ofBaseName base := by
  unfold canonicalName
  split <;> rfl

/-- A type spelled out as a name. -/
def spelling : Typ → String
  | .int .bool => "System.Boolean"
  | .int .char => "System.Char"
  | .int .i8 => "System.SByte"
  | .int .u8 => "System.Byte"
  | .int .i16 => "System.Int16"
  | .int .u16 => "System.UInt16"
  | .int .i32 => "System.Int32"
  | .int .u32 => "System.UInt32"
  | .int .i64 => "System.Int64"
  | .int .u64 => "System.UInt64"
  | .float .single => "System.Single"
  | .float .double => "System.Double"
  | .void => "System.Void"
  | .pointer (.array element) => element.spelling ++ "[]"
  | .pointer (.struct name) => name
  | .pointer referenced => referenced.spelling ++ "&"
  | .struct name => name
  | .array element => element.spelling

theorem spelling_ofBaseName (base : String) : (ofBaseName base).spelling = canonicalName base := by
  unfold ofBaseName
  split
  case h_16 =>
    unfold canonicalName
    split
    · contradiction
    · contradiction
    · rfl
  all_goals rfl

/-- A type that a name can denote: structures and arrays stand behind pointers. -/
def IsNameable : Typ → Prop
  | .struct _ => False
  | .array _ => False
  | _ => True

theorem isNameable_ofBaseName (base : String) : (ofBaseName base).IsNameable := by
  unfold ofBaseName
  split <;> trivial

theorem isNameable_wrap (mark : TypeMark) (typ : Typ) : (mark.wrap typ).IsNameable := by
  cases mark <;> trivial

theorem spelling_wrap (mark : TypeMark) {typ : Typ} (nameable : typ.IsNameable) :
    (mark.wrap typ).spelling = typ.spelling ++ mark.text := by
  cases mark with
  | array => rfl
  | reference =>
    cases typ with
    | struct name => exact nameable.elim
    | array element => exact nameable.elim
    | _ => rfl

/-- The `spelling` of the type of a name has its marks and the `canonicalName` of its base name. -/
theorem spelling_ofName {name base : String} {marks : List TypeMark}
    (spelled : Spelled name base marks) :
    (ofName name).spelling = markedName (canonicalName base) marks := by
  obtain ⟨bare, rfl⟩ := spelled
  have both : (ofName (markedName base marks)).IsNameable ∧
      (ofName (markedName base marks)).spelling = markedName (canonicalName base) marks := by
    induction marks using List.reverseRecOn with
    | nil =>
      show (ofName base).IsNameable ∧ (ofName base).spelling = canonicalName base
      rw [ofName_of_bare bare]
      exact ⟨isNameable_ofBaseName base, spelling_ofBaseName base⟩
    | append_singleton marks mark inductionHypothesis =>
      obtain ⟨nameable, before⟩ := inductionHypothesis
      rw [markedName_concat, markedName_concat, ofName_append_text, spelling_wrap mark nameable,
        before]
      exact ⟨isNameable_wrap mark _, rfl⟩
  exact both.2

/-- Type names are not mixed up. Each name is a base name with marks after it, in one way only
(`Spelled`), and two names denote the same type (`Typ.ofName`) if and only if they have the same
marks in the same order and base names that are the same, where an integer of the size of a pointer
counts as one of 64 bits (`canonicalName`). -/
theorem ofName_eq_iff_spelled_alike :
    (∀ name, ∃! parts : String × List TypeMark, Spelled name parts.1 parts.2) ∧
    ∀ left right, ofName left = ofName right ↔
      ∃ leftBase rightBase marks, Spelled left leftBase marks ∧ Spelled right rightBase marks ∧
        canonicalName leftBase = canonicalName rightBase := by
  refine ⟨existsUnique_spelled, fun left right => ⟨fun same => ?_, ?_⟩⟩
  · obtain ⟨⟨leftBase, leftMarks⟩, leftSpelled, -⟩ := existsUnique_spelled left
    obtain ⟨⟨rightBase, rightMarks⟩, rightSpelled, -⟩ := existsUnique_spelled right
    have spellings := congrArg spelling same
    rw [spelling_ofName leftSpelled, spelling_ofName rightSpelled] at spellings
    obtain ⟨bases, rfl⟩ := eq_of_markedName_eq (isBareName_canonicalName leftSpelled.bare)
      (isBareName_canonicalName rightSpelled.bare) spellings
    exact ⟨leftBase, rightBase, leftMarks, leftSpelled, rightSpelled, bases⟩
  · rintro ⟨leftBase, rightBase, marks, leftSpelled, rightSpelled, bases⟩
    rw [leftSpelled.whole, rightSpelled.whole, ofName_markedName leftSpelled.bare,
      ofName_markedName rightSpelled.bare, ← ofBaseName_canonicalName leftBase, bases,
      ofBaseName_canonicalName]

end Typ

end BytecodeFlow
