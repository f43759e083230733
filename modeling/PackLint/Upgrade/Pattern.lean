import PackLint.Text.Search

/-! # Patterns of outdated text

    What the upgrade from 1.16 to 1.17 looks for in the text of commands and
    documents.  A pattern is a test of a text from its beginning, or of each place
    of it. -/

namespace PackLint.Upgrade

open Text

/-- The text without `minecraft:` in front. -/
def dropDefaultNamespace (cs : List Char) : List Char :=
  (afterPhrase "minecraft:".toList cs).getD cs

/-- The text behind `summon` and this entity. -/
def afterSummon (entity : String) (cs : List Char) : Option (List Char) := do
  let cs ← afterPhrase "summon".toList cs
  let cs ← afterBlanks cs
  afterPhrase entity.toList (dropDefaultNamespace cs)

/-- The text behind three coordinates and the blanks that follow them. -/
def afterPosition (cs : List Char) : Option (List Char) := do
  let cs ← afterField cs
  let cs ← afterField cs
  let cs ← afterField cs
  afterBlanks cs

/-- A value that is set, at the beginning of the text and as a word. -/
def isSet (cs : List Char) : Bool :=
  (afterPhraseAnyCase "1b".toList cs).any wordMayEnd
    || (afterPhraseAnyCase "true".toList cs).any wordMayEnd

/-- The name `Marker` begins a word here, and its value is set. -/
def markerSet : PlaceTest := fun before cs =>
  wordMayBegin before
    && match afterPhrase "Marker".toList cs with
      | none => false
      | some cs =>
          match skipBlanks cs with
          | ':' :: cs => isSet (skipBlanks cs)
          | _ => false

/-- The text summons an armor stand whose data begin with a brace, and sets
    `Marker` later in the line of that brace. -/
def summonsMarkerArmorStand (cs : List Char) : Bool :=
  match (afterSummon "armor_stand" cs).bind afterPosition with
  | some ('{' :: cs) => occursOnLine markerSet (some '{') cs
  | _ => false

/-- The text summons an area effect cloud. -/
def summonsCloud (cs : List Char) : Bool :=
  (afterSummon "area_effect_cloud" cs).any wordMayEnd

/-- The names of the data that make a cloud visible. -/
def visibleData : List String :=
  ["Effects", "Potion", "Particle"]

/-- The text summons an area effect cloud, and what follows its position is one
    line without the names of visible data. -/
def summonsInvisibleCloud (cs : List Char) : Bool :=
  match (afterSummon "area_effect_cloud" cs).bind afterPosition with
  | some cs => !cs.contains '\n' && !visibleData.any fun name => hasWord name.toList cs
  | none => false

/-- The name of the statistic of the time played begins a word here and ends one. -/
def playTimeHere : PlaceTest := fun before cs =>
  wordMayBegin before
    && match afterPhrase "minecraft.custom:".toList cs with
      | none => false
      | some cs =>
          let name := (afterPhrase "minecraft.".toList cs).getD cs
          (afterPhrase "play_one_minute".toList name).any wordMayEnd

/-- The text names the statistic of the time played. -/
def namesPlayTime (cs : List Char) : Bool :=
  occurs playTimeHere cs

/-- Here stand this key in quotes, a colon and the quote that opens a string. -/
def stringMemberHere (key : String) : PlaceTest := fun _ cs =>
  match afterPhrase ('"' :: key.toList ++ ['"']) cs with
  | none => false
  | some cs =>
      match skipBlanks cs with
      | ':' :: cs => (skipBlanks cs).head? == some '"'
      | _ => false

/-- The text has a member with this key that is a string. -/
def hasStringMember (key : String) (cs : List Char) : Bool :=
  occurs (stringMemberHere key) cs

end PackLint.Upgrade
