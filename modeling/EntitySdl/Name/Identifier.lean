import EntitySdl.Text.CharSet

/-! # Identifiers

A name of the SDL is a letter or an underscore, followed by letters, digits and
underscores, all of them ASCII.
-/
namespace EntitySdl
namespace Name

open Text

/-- Whether a name may begin with a character. -/
def isNameStart (c : Char) : Bool := c == '_' || isAsciiLetter c

/-- Whether a name may go on with a character. -/
def isNamePart (c : Char) : Bool := isNameStart c || isAsciiDigit c

/-- Whether the characters of a text form a name. -/
def isIdentifierText : List Char → Bool
  | [] => false
  | c :: cs => isNameStart c && cs.all isNamePart

/-- Whether a text is a name. -/
def isIdentifier (name : String) : Bool := isIdentifierText name.toList

theorem isNamePart_of_isNameStart {c : Char} (h : isNameStart c) : isNamePart c := by
  simp [isNamePart, h]

theorem isNamePart_of_mem {name : String} (h : isIdentifier name) :
    ∀ c ∈ name.toList, isNamePart c := by
  unfold isIdentifier at h
  cases hname : name.toList with
  | nil => simp
  | cons c cs =>
    rw [hname] at h
    simp only [isIdentifierText, Bool.and_eq_true, List.all_eq_true] at h
    simp only [List.mem_cons, forall_eq_or_imp]
    exact ⟨isNamePart_of_isNameStart h.1, h.2⟩

end Name
end EntitySdl
