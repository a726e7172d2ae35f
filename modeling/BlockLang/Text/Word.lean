import BlockLang.Text.Letter
import BlockLang.Text.Digit

/-!
# Word characters

A character is alphanumeric if it is a letter or has a numeric value, be it a digit or another
number sign such as a fraction or a Roman numeral. A word is made of alphanumeric characters and
the low line. The data are those of Unicode 14.

## Main definitions

* `isAlphanumeric c`: the character is a letter or has a numeric value
* `isWordChar c`: the character can stand inside a word
* `isWordStart c`: the character can begin a word

## Main results

* `isWordChar_of_isWordStart`: what begins a word can stand inside one
* `isWordChar_of_isDigit`: digits can stand inside a word
-/

namespace BlockLang.Text

/-- The code points that have a numeric value and are neither letters nor digits, in increasing order. -/
def numberSignRanges : List (Nat × Nat) :=
  [(188, 190), (2548, 2553), (2930, 2935), (3056, 3058), (3192, 3198), (3416, 3422), (3440,
   3448), (3882, 3891), (4978, 4988), (5870, 5872), (6128, 6137), (8528, 8578), (8581, 8585),
   (9321, 9331), (9341, 9351), (9361, 9371), (9451, 9460), (9470, 9470), (10111, 10111), (10121,
   10121), (10131, 10131), (11517, 11517), (12295, 12295), (12321, 12329), (12344, 12346),
   (12690, 12693), (12832, 12841), (12872, 12879), (12881, 12895), (12928, 12937), (12977,
   12991), (42726, 42735), (43056, 43061), (65799, 65843), (65856, 65912), (65930, 65931),
   (66273, 66299), (66336, 66339), (66369, 66369), (66378, 66378), (66513, 66517), (67672,
   67679), (67705, 67711), (67751, 67759), (67835, 67839), (67862, 67867), (68028, 68029),
   (68032, 68047), (68050, 68095), (68164, 68168), (68221, 68222), (68253, 68255), (68331,
   68335), (68440, 68447), (68472, 68479), (68521, 68527), (68858, 68863), (69225, 69246),
   (69405, 69414), (69457, 69460), (69573, 69579), (69723, 69733), (70113, 70132), (71482,
   71483), (71914, 71922), (72794, 72812), (73664, 73684), (74752, 74862), (93019, 93025),
   (93824, 93846), (119520, 119539), (119648, 119672), (125127, 125135), (126065, 126123),
   (126125, 126127), (126129, 126132), (126209, 126253), (126255, 126269), (127243, 127244)]

/-- The character is a letter or has a numeric value. -/
def isAlphanumeric (c : Char) : Bool :=
  isLetter c || isDigit c || inRanges numberSignRanges c.toNat

/-- The character can stand inside a word. -/
def isWordChar (c : Char) : Bool := isAlphanumeric c || c == '_'

/-- The character can begin a word. -/
def isWordStart (c : Char) : Bool := isLetter c || c == '_'

theorem isWordChar_of_isWordStart {c : Char} (h : isWordStart c = true) :
    isWordChar c = true := by
  simp only [isWordStart, Bool.or_eq_true] at h
  rcases h with h | h <;> simp [isWordChar, isAlphanumeric, h]

theorem isWordChar_of_isDigit {c : Char} (h : isDigit c = true) : isWordChar c = true := by
  simp [isWordChar, isAlphanumeric, h]

example : isAlphanumeric '½' && isAlphanumeric '²' && isWordChar '_' && !isWordStart '½' := by
  decide +kernel

end BlockLang.Text
