/-! # Blanks, lines and words

The blanks are the characters with the Unicode property White_Space.  Trimming
removes them at both ends; a line ends at a line feed, before which one
carriage return belongs to the line end.
-/
namespace EntitySdl
namespace Text

/-- The Unicode property White_Space. -/
def isBlank (c : Char) : Bool :=
  let n := c.toNat
  (9 ≤ n && n ≤ 13) || n == 32 || n == 0x85 || n == 0xA0 || n == 0x1680 ||
    (0x2000 ≤ n && n ≤ 0x200A) || n == 0x2028 || n == 0x2029 || n == 0x202F ||
    n == 0x205F || n == 0x3000

/-- A text without the blanks it begins with. -/
def trimStart (cs : List Char) : List Char := cs.dropWhile isBlank

/-- A text without the blanks it ends with. -/
def trimEnd (cs : List Char) : List Char := (cs.reverse.dropWhile isBlank).reverse

/-- A text without the blanks at its two ends. -/
def trim (cs : List Char) : List Char := trimEnd (trimStart cs)

/-- The pieces between the characters that satisfy a test; one more than such
characters. -/
def splitAt (separates : Char → Bool) : List Char → List (List Char)
  | [] => [[]]
  | c :: cs =>
    if separates c then [] :: splitAt separates cs
    else match splitAt separates cs with
      | [] => [[c]]
      | piece :: pieces => (c :: piece) :: pieces

theorem splitAt_ne_nil (separates : Char → Bool) (cs : List Char) :
    splitAt separates cs ≠ [] := by
  induction cs with
  | nil => simp [splitAt]
  | cons c cs ih =>
    unfold splitAt
    split
    · simp
    · split <;> simp

/-- The pieces between separators hold no separator. -/
theorem splitAt_separates {separates : Char → Bool} {cs piece : List Char}
    (hpiece : piece ∈ splitAt separates cs) : ∀ c ∈ piece, separates c = false := by
  induction cs generalizing piece with
  | nil => simp_all [splitAt]
  | cons c cs ih =>
    unfold splitAt at hpiece
    split at hpiece
    · rcases List.mem_cons.mp hpiece with rfl | hpiece
      · simp
      · exact ih hpiece
    · rename_i hc
      split at hpiece
      · cases List.mem_singleton.mp hpiece
        simpa using hc
      · rename_i first pieces hsplit
        rcases List.mem_cons.mp hpiece with rfl | hpiece
        · simp only [List.mem_cons, forall_eq_or_imp]
          exact ⟨by simpa using hc, ih (by rw [hsplit]; exact List.mem_cons_self)⟩
        · exact ih (by rw [hsplit]; exact List.mem_cons_of_mem _ hpiece)

/-- A text without separators is one piece. -/
theorem splitAt_eq_singleton {separates : Char → Bool} {cs : List Char}
    (h : ∀ c ∈ cs, separates c = false) : splitAt separates cs = [cs] := by
  induction cs with
  | nil => rfl
  | cons c cs ih =>
    obtain ⟨hc, hcs⟩ := List.forall_mem_cons.mp h
    rw [splitAt, hc, ih hcs]
    rfl

/-- The pieces on both sides of a separator. -/
theorem splitAt_append_cons {separates : Char → Bool} {c : Char} (hc : separates c = true)
    (cs ds : List Char) :
    splitAt separates (cs ++ c :: ds) = splitAt separates cs ++ splitAt separates ds := by
  induction cs with
  | nil => simp [splitAt, hc]
  | cons d cs ih =>
    rw [List.cons_append, splitAt, splitAt, ih]
    split
    · rfl
    · cases hsplit : splitAt separates cs with
      | nil => exact absurd hsplit (splitAt_ne_nil _ cs)
      | cons piece pieces => rfl

/-- A line without the carriage return that belongs to its line feed. -/
def dropReturn (line : List Char) : List Char :=
  match line.reverse with
  | '\r' :: rest => rest.reverse
  | _ => line

/-- The lines of a text.  What follows the last line feed is a line only if it
is not empty, and only there a final carriage return is kept. -/
def lines (cs : List Char) : List (List Char) :=
  let pieces := splitAt (· == '\n') cs
  let ended := pieces.dropLast.map dropReturn
  match pieces.getLast? with
  | some [] | none => ended
  | some rest => ended ++ [rest]

/-- The maximal runs of characters that are no blanks. -/
def words (cs : List Char) : List (List Char) :=
  (splitAt isBlank cs).filter (!·.isEmpty)

/-- A text with each run of blanks made one space, and none at the ends. -/
def singleSpaced (text : String) : String :=
  " ".intercalate ((words text.toList).map String.ofList)

/-- A text without the blanks at its two ends. -/
def trimmed (text : String) : String := String.ofList (trim text.toList)

/-- Whether a list of characters begins with another; if so, what follows it. -/
def dropStart? : List Char → List Char → Option (List Char)
  | [], cs => some cs
  | _ :: _, [] => none
  | k :: ks, c :: cs => if k = c then dropStart? ks cs else none

@[simp] theorem dropStart?_append (start rest : List Char) :
    dropStart? start (start ++ rest) = some rest := by
  induction start with
  | nil => rfl
  | cons c cs ih => simp [dropStart?, ih]

theorem eq_append_of_dropStart? {start cs rest : List Char}
    (h : dropStart? start cs = some rest) : cs = start ++ rest := by
  induction start generalizing cs with
  | nil => simpa [dropStart?] using h
  | cons k ks ih =>
    cases cs with
    | nil => simp [dropStart?] at h
    | cons c cs =>
      simp only [dropStart?] at h
      split at h
      · next hkc => simp [hkc, ih h]
      · simp at h

end Text
end EntitySdl
