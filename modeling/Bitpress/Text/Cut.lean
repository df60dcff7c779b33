/-!
Cutting texts at characters and at words, on lists of characters with wrappers
for texts.
-/

namespace Bitpress.Text

/-- The text after `word`, if it begins with it. -/
def after? (word : List Char) (cs : List Char) : Option (List Char) :=
  match word, cs with
  | [], cs => some cs
  | _ :: _, [] => none
  | w :: ws, c :: cs => if w = c then after? ws cs else none

/-- What stands before and after the first `word`. -/
def cutAt? (word : List Char) (cs : List Char) : Option (List Char × List Char) :=
  match after? word cs with
  | some rest => some ([], rest)
  | none =>
    match cs with
    | [] => none
    | c :: cs => (cutAt? word cs).map fun (before, rest) => (c :: before, rest)

/-- The pieces between the characters that `p` holds of; one more than there are such characters. -/
def splitWhere (p : Char → Bool) (cs : List Char) : List (List Char) :=
  match cs with
  | [] => [[]]
  | c :: cs =>
    if p c then [] :: splitWhere p cs
    else
      match splitWhere p cs with
      | [] => [[c]]
      | piece :: pieces => (c :: piece) :: pieces

/-- The pieces between the characters `sep`. -/
def splitChars (sep : Char) (cs : List Char) : List (List Char) := splitWhere (· == sep) cs

def split (sep : Char) (s : String) : List String := (splitChars sep s.toList).map String.ofList

/-- The lines of a text; the break after the last one is not needed, and a carriage return before a
break belongs to it. -/
def lineChars (cs : List Char) : List (List Char) :=
  let bare (line : List Char) : List Char := if line.getLast? = some '\r' then line.dropLast else line
  let pieces := splitChars '\n' cs
  pieces.dropLast.map bare ++ match pieces.getLast? with
    | some (c :: rest) => [c :: rest]
    | _ => []

def lines (s : String) : List String := (lineChars s.toList).map String.ofList

def hasPart (word : List Char) (cs : List Char) : Bool := (cutAt? word cs).isSome

def contains (s part : String) : Bool := hasPart part.toList s.toList

def startsWith (s start : String) : Bool := start.toList.isPrefixOf s.toList

def endsWith (s ending : String) : Bool := ending.toList.reverse.isPrefixOf s.toList.reverse

/-- The text without `start` at its beginning, if it begins with it. -/
def withoutStart? (start s : String) : Option String :=
  (after? start.toList s.toList).map String.ofList

def withoutEnd? (ending s : String) : Option String :=
  (after? ending.toList.reverse s.toList.reverse).map fun cs => String.ofList cs.reverse

theorem after?_append (word rest : List Char) : after? word (word ++ rest) = some rest := by
  induction word with
  | nil => rfl
  | cons w ws ih => simp [after?, ih]

theorem after?_eq_some {word cs rest : List Char} (h : after? word cs = some rest) :
    cs = word ++ rest := by
  induction word generalizing cs with
  | nil => simpa [after?] using h
  | cons w ws ih =>
    cases cs with
    | nil => simp [after?] at h
    | cons c cs =>
      by_cases hw : w = c
      · simp only [after?, hw, if_true] at h
        simp [hw, ih h]
      · simp [after?, hw] at h

theorem cutAt?_eq_some {word cs before rest : List Char} (h : cutAt? word cs = some (before, rest)) :
    cs = before ++ word ++ rest := by
  induction cs generalizing before with
  | nil =>
    unfold cutAt? at h
    split at h
    · rename_i r hr
      have := after?_eq_some hr
      simp_all
    · simp at h
  | cons c cs ih =>
    unfold cutAt? at h
    split at h
    · rename_i r hr
      have := after?_eq_some hr
      simp_all
    · obtain ⟨⟨b, r⟩, hb, he⟩ := Option.map_eq_some_iff.1 h
      simp only [Prod.mk.injEq] at he
      obtain ⟨rfl, rfl⟩ := he
      simp [ih hb]

/-- A text has at least one piece. -/
theorem splitWhere_ne_nil (p : Char → Bool) (cs : List Char) : splitWhere p cs ≠ [] := by
  induction cs with
  | nil => simp [splitWhere]
  | cons c cs ih =>
    unfold splitWhere
    split
    · simp
    · split <;> simp

theorem splitChars_ne_nil (sep : Char) (cs : List Char) : splitChars sep cs ≠ [] := splitWhere_ne_nil _ cs

/-- Replaces each `word`, from the left, by `replacement`. An empty `word` leaves the text alone. -/
def replaceAll (word replacement : List Char) (cs : List Char) : List Char :=
  if _hw : word = [] then cs
  else
    match _h : cutAt? word cs with
    | none => cs
    | some (before, rest) => before ++ replacement ++ replaceAll word replacement rest
termination_by cs.length
decreasing_by
  have := cutAt?_eq_some _h
  subst this
  have : 0 < word.length := List.length_pos_iff.2 _hw
  simp only [List.length_append]
  omega

def replace (s word replacement : String) : String :=
  String.ofList (replaceAll word.toList replacement.toList s.toList)

end Bitpress.Text
