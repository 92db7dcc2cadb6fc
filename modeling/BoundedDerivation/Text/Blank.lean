/-! Blank characters, and cutting them off both ends of a text. -/
namespace BoundedDerivation

/-- A text is a list of characters that is read or written, as opposed to derived. -/
abbrev Text := List Char

namespace Text

/-- The twenty-five characters that carry the Unicode property White_Space. The zero-width
space, the byte order mark and the separators U+001C to U+001F do not carry it. -/
def isBlank (c : Char) : Bool :=
  let n := c.toNat
  (9 ≤ n && n ≤ 13) || n == 0x20 || n == 0x85 || n == 0xA0 || n == 0x1680 ||
    (0x2000 ≤ n && n ≤ 0x200A) || n == 0x2028 || n == 0x2029 || n == 0x202F || n == 0x205F ||
    n == 0x3000

def trimLeft (text : Text) : Text := text.dropWhile isBlank

/-- A blank at the end goes when nothing is left after it. -/
def trimRight : Text → Text
  | [] => []
  | c :: text =>
    match trimRight text with
    | [] => if isBlank c then [] else [c]
    | kept => c :: kept

def trim (text : Text) : Text := trimRight (trimLeft text)

@[simp] theorem trimLeft_nil : trimLeft [] = [] := rfl

@[simp] theorem trimRight_nil : trimRight [] = [] := rfl

@[simp] theorem trimRight_cons (c : Char) (text : Text) :
    trimRight (c :: text) =
      if trimRight text = [] ∧ isBlank c then [] else c :: trimRight text := by
  rw [trimRight]
  cases h : trimRight text with
  | nil => cases hc : isBlank c <;> simp
  | cons d rest => simp

@[simp] theorem trim_nil : trim [] = [] := rfl

theorem trimLeft_of_not_blank {c : Char} (h : isBlank c = false) (text : Text) :
    trimLeft (c :: text) = c :: text := by simp [trimLeft, h]

/-- Nothing is cut off a text without blanks. -/
theorem trimRight_of_no_blank {text : Text} (h : ∀ c ∈ text, isBlank c = false) :
    trimRight text = text := by
  induction text with
  | nil => rfl
  | cons c text ih =>
    obtain ⟨hc, htext⟩ := List.forall_mem_cons.mp h
    simp [hc, ih htext]

end Text
end BoundedDerivation
