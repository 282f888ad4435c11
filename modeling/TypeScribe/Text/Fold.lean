/-!
# Names up to root and case

A class name may be written with any number of leading `\` and in any
mixture of upper and lower case: `\App\User` and `app\user` are one
class. This file has the three readings of a name the rest of the
library uses. `unrooted` forgets the leading `\`, `rooted` writes exactly
one, and `fold` forgets the case as well, so that two names denote one
class exactly when their folds are equal (`SameName`).

Only the twenty-six ASCII letters have a case here; every other character
stands for itself.
-/

namespace TypeScribe

namespace Text

/-- The text without the run of `c` it begins with. -/
def dropLeading (c : Char) (s : String) : String :=
  String.ofList (s.toList.dropWhile (· == c))

/-- ASCII capitals become small letters; nothing else changes. -/
def lower (s : String) : String :=
  String.ofList (s.toList.map Char.toLower)

/-- A class name without its leading separators. -/
def unrooted (name : String) : String :=
  dropLeading '\\' name

/-- A class name written from the namespace root, with one separator in
front however many it had. -/
def rooted (name : String) : String :=
  "\\" ++ unrooted name

/-- What identifies a class: its name without root and without case. -/
def fold (name : String) : String :=
  lower (unrooted name)

/-- Two spellings of one class name. -/
def SameName (a b : String) : Prop :=
  fold a = fold b

instance (a b : String) : Decidable (SameName a b) :=
  inferInstanceAs (Decidable (fold a = fold b))

/-! ## Reading the characters -/

@[simp] theorem toList_dropLeading (c : Char) (s : String) :
    (dropLeading c s).toList = s.toList.dropWhile (· == c) :=
  String.toList_ofList

@[simp] theorem toList_lower (s : String) : (lower s).toList = s.toList.map Char.toLower :=
  String.toList_ofList

/-- Once the run is gone there is nothing left to drop. -/
@[simp] theorem dropLeading_dropLeading (c : Char) (s : String) :
    dropLeading c (dropLeading c s) = dropLeading c s := by
  apply String.toList_inj.1
  simp only [toList_dropLeading]
  induction s.toList with
  | nil => rfl
  | cons x xs ih =>
    by_cases h : x = c
    · simp [h, ih]
    · simp [h]

/-- One separator more in front changes nothing. -/
@[simp] theorem unrooted_separator (name : String) : unrooted ("\\" ++ name) = unrooted name := by
  apply String.toList_inj.1
  simp only [unrooted, toList_dropLeading, String.toList_append]
  rfl

/-- Nor is there a second root to forget. -/
@[simp] theorem unrooted_unrooted (name : String) : unrooted (unrooted name) = unrooted name :=
  dropLeading_dropLeading '\\' name

/-- The root is forgotten whether or not it was written. -/
@[simp] theorem unrooted_rooted (name : String) : unrooted (rooted name) = unrooted name := by
  rw [rooted, unrooted_separator, unrooted_unrooted]

/-- **A rooted spelling names the same class.** -/
theorem sameName_rooted (name : String) : SameName (rooted name) name := by
  simp [SameName, fold]

theorem SameName.symm {a b : String} (h : SameName a b) : SameName b a :=
  Eq.symm h

theorem SameName.trans {a b c : String} (h : SameName a b) (h' : SameName b c) : SameName a c :=
  Eq.trans h h'

end Text

end TypeScribe
