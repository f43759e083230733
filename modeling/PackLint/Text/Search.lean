import PackLint.Text.Blank
import PackLint.Text.Word

/-! # Searching a text

    A search looks at one place of a text after another.  A place is the
    character before it, if there is one, and the text from it on, which is all
    that a word boundary depends on.  `search` moves along as long as it may pass
    over the next character; `occurs` may pass over all of them, `occursOnLine`
    over all but a line feed. -/

namespace PackLint.Text

/-- A test of a place: the character before it, and the text from it on. -/
abbrev PlaceTest := Option Char → List Char → Bool

/-- Whether a test holds at this place or at a later one, when the characters
    in between are all passable. -/
def search (passable : Char → Bool) (test : PlaceTest) : PlaceTest
  | before, [] => test before []
  | before, c :: cs =>
      test before (c :: cs) || (passable c && search passable test (some c) cs)

/-- Whether a test holds anywhere in a text. -/
def occurs (test : PlaceTest) (cs : List Char) : Bool :=
  search (fun _ => true) test none cs

/-- Whether a test holds at this place or at a later one of the same line. -/
def occursOnLine (test : PlaceTest) : PlaceTest :=
  search (· != '\n') test

/-- The text behind a phrase that it begins with. -/
def afterPhrase : (phrase cs : List Char) → Option (List Char)
  | [], cs => some cs
  | _ :: _, [] => none
  | p :: ps, c :: cs => if p = c then afterPhrase ps cs else none

/-- The text behind a phrase in lower case that it begins with, where its ASCII
    letters may be of either case. -/
def afterPhraseAnyCase : (phrase cs : List Char) → Option (List Char)
  | [], cs => some cs
  | _ :: _, [] => none
  | p :: ps, c :: cs => if p = c.toLower then afterPhraseAnyCase ps cs else none

/-- A word may begin here: no word character stands before. -/
def wordMayBegin (before : Option Char) : Bool :=
  !before.any isWord

/-- A word may end here: no word character follows. -/
def wordMayEnd (cs : List Char) : Bool :=
  !cs.head?.any isWord

/-- The phrase stands here as a whole word. -/
def wordHere (phrase : List Char) : PlaceTest := fun before cs =>
  wordMayBegin before && (afterPhrase phrase cs).any wordMayEnd

/-- The phrase occurs in the text as a whole word. -/
def hasWord (phrase : List Char) (cs : List Char) : Bool :=
  occurs (wordHere phrase) cs

/-- The text behind one blank or more. -/
def afterBlanks : List Char → Option (List Char)
  | [] => none
  | c :: cs => if isBlank c then some (skipBlanks cs) else none

/-- The text behind the characters up to the next blank, of which there is one
    at least. -/
def afterSolid : List Char → Option (List Char)
  | [] => none
  | c :: cs => if isBlank c then none else some (cs.dropWhile fun c => !isBlank c)

/-- The text behind blanks and the solid stretch that follows them. -/
def afterField (cs : List Char) : Option (List Char) :=
  (afterBlanks cs).bind afterSolid

/-- A phrase that the text begins with is exactly its beginning. -/
theorem afterPhrase_eq_some_iff {phrase cs rest : List Char} :
    afterPhrase phrase cs = some rest ↔ cs = phrase ++ rest := by
  induction phrase generalizing cs with
  | nil => simp [afterPhrase]
  | cons p ps ih =>
      cases cs with
      | nil => simp [afterPhrase]
      | cons c cs =>
          by_cases h : p = c
          · subst h
            simp [afterPhrase, ih]
          · simp [afterPhrase, h, Ne.symm h]

end PackLint.Text
