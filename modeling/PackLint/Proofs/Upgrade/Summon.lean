import PackLint.Proofs.Command.Fields
import PackLint.Proofs.Upgrade.Pattern

/-! # Summoned entities

    The patterns for entities read the text of a command, where the words of a position
    end at blanks; the command itself is read in tokens, which may have blanks in strings
    and brackets.  In a command whose position has no blanks in it both readings agree,
    and what is found can be said in tokens. -/

namespace PackLint.Upgrade

open Text

variable {raw rest : List Char} {id name : String}

/-! ## Ids of entities -/

/-- The id names this entity, with or without the default namespace. -/
def NamesEntity (id name : String) : Prop :=
  id = name ∨ id = "minecraft:" ++ name

/-- The text behind the name of an entity, in an id that begins with it. -/
def behindName (name : String) (id : List Char) : Option (List Char) :=
  afterPhrase name.toList (dropDefaultNamespace id)

/-- The default namespace is dropped from an id no matter what follows its gap. -/
theorem dropDefaultNamespace_append (hrest : AtGap rest) (id : List Char) :
    dropDefaultNamespace (id ++ rest) = dropDefaultNamespace id ++ rest := by
  have hsolid : IsSolid "minecraft:".toList := by decide
  rw [dropDefaultNamespace, dropDefaultNamespace, afterPhrase_append hsolid.2 hrest]
  cases afterPhrase "minecraft:".toList id <;> rfl

/-- What is used of the name of an entity: it is one word, also behind the default
    namespace, and does not begin like the namespace itself. -/
structure IsEntityName (name : String) : Prop where
  exists_head : ∃ c, name.toList.head? = some c ∧ c ≠ 'm'
  isSolid : IsSolid name.toList
  isClosed : Token.IsClosed name
  isClosed_qualified : Token.IsClosed ("minecraft:" ++ name)

/-- The name of armor stands can be looked for. -/
theorem isEntityName_armorStand : IsEntityName "armor_stand" :=
  ⟨⟨'a', rfl, by decide⟩, by decide, by decide, by decide⟩

theorem isEntityName_cloud : IsEntityName "area_effect_cloud" :=
  ⟨⟨'a', rfl, by decide⟩, by decide, by decide, by decide⟩

/-- What stands behind a name in an id completes the name to the entity that the id names. -/
theorem behindName_eq_some_iff {behind : List Char} (hname : IsEntityName name) :
    behindName name id.toList = some behind ↔ NamesEntity id (name ++ String.ofList behind) := by
  simp only [NamesEntity, ← String.toList_inj, String.toList_append, String.toList_ofList]
  rw [behindName, dropDefaultNamespace, afterPhrase_eq_some_iff]
  cases hid : afterPhrase "minecraft:".toList id.toList with
  | none =>
      rw [Option.getD_none]
      refine (or_iff_left ?_).symm
      intro h
      rw [afterPhrase_eq_some_iff.mpr h] at hid
      exact absurd hid (Option.some_ne_none _)
  | some inner =>
      rw [afterPhrase_eq_some_iff.mp hid, Option.getD_some, List.append_cancel_left_eq]
      refine (or_iff_right ?_).symm
      intro h
      obtain ⟨c, hc, hne⟩ := hname.exists_head
      obtain ⟨cs, hcs⟩ : ∃ cs, name.toList = c :: cs := List.head?_eq_some_iff.mp hc
      rw [hcs] at h
      exact hne (List.cons.inj h).1.symm

/-- Nothing stands behind the name exactly if the id names this entity. -/
theorem behindName_eq_some_nil_iff (hname : IsEntityName name) :
    behindName name id.toList = some [] ↔ NamesEntity id name := by
  have h : behindName name id.toList = some [] ↔ NamesEntity id (name ++ String.ofList []) :=
    behindName_eq_some_iff hname
  rwa [String.ofList_nil, String.append_empty] at h

/-! ## Positions -/

/-- The text behind this many fields. -/
def afterFields : Nat → List Char → Option (List Char)
  | 0, cs => some cs
  | n + 1, cs => (afterField cs).bind (afterFields n)

/-- The position is three fields, with blanks behind them. -/
theorem afterPosition_eq (cs : List Char) :
    afterPosition cs = (afterFields 3 cs).bind afterBlanks := by
  simp only [afterPosition, afterFields, Option.bind_eq_bind, Option.bind_assoc]
  rfl

section Fields

variable {cs : List Char} {last : Token} {ts : List Token} {n : Nat}

/-- The token has no blanks in it. -/
def IsField (t : Token) : Prop :=
  ∀ c ∈ t.text.toList, isBlank c = false

/-- Where fewer fields are left than are asked for, they are not found. -/
theorem afterFields_eq_none {offset : Nat} (h : Token.Remaining offset cs ts)
    (hfields : ∀ t ∈ ts.take n, IsField t) (hn : ts.length < n) : afterFields n cs = none := by
  induction n generalizing offset cs ts with
  | zero => exact absurd hn (Nat.not_lt_zero _)
  | succ n ih =>
      cases ts with
      | nil =>
          rw [afterFields, h.afterField_nil]
          rfl
      | cons t ts =>
          obtain ⟨ht, hfields⟩ := List.forall_mem_cons.mp hfields
          obtain ⟨-, rest, -, -, hfield, hrest⟩ := h.exists_afterField ht
          rw [afterFields, hfield, Option.bind_some]
          exact ih hrest hfields (Nat.lt_of_succ_lt_succ hn)

/-- Behind so many fields stands what is behind so many tokens. -/
theorem exists_afterFields (h : Token.Remaining last.endOffset cs ts)
    (hfields : ∀ t ∈ ts.take n, IsField t) (hn : n ≤ ts.length) :
    ∃ front rest u, cs = front ++ rest ∧ afterFields n cs = some rest
      ∧ (last :: ts)[n]? = some u
      ∧ u.endOffset = last.endOffset + Token.byteLength front
      ∧ Token.Remaining u.endOffset rest (ts.drop n) := by
  induction n generalizing last cs ts with
  | zero => exact ⟨[], cs, last, rfl, rfl, rfl, rfl, h⟩
  | succ n ih =>
      cases ts with
      | nil => exact absurd hn (Nat.not_succ_le_zero n)
      | cons t ts =>
          obtain ⟨ht, hfields⟩ := List.forall_mem_cons.mp hfields
          obtain ⟨front, behind, rfl, hoffset, hfield, hbehind⟩ := h.exists_afterField ht
          obtain ⟨front', rest, u, rfl, hfields', hu, huoffset, hrest⟩ :=
            ih hbehind hfields (Nat.le_of_succ_le_succ hn)
          refine ⟨front ++ front', rest, u, ?_, ?_, hu, ?_, hrest⟩
          · rw [List.append_assoc]
          · rw [afterFields, hfield, Option.bind_some, hfields']
          · rw [huoffset, hoffset, Token.byteLength_append, Nat.add_assoc]

/-- A `summon` with three arguments or fewer behind the id has nothing behind its position. -/
theorem afterPosition_eq_none (h : Token.Remaining last.endOffset cs ts)
    (hfields : ∀ t ∈ ts.take 3, IsField t) (hlength : ts.length ≤ 3) :
    afterPosition cs = none := by
  rw [afterPosition_eq]
  by_cases hlt : ts.length < 3
  · rw [afterFields_eq_none h hfields hlt]
    rfl
  · obtain ⟨-, rest, u, -, hrest, -, -, hremaining⟩ :=
      exists_afterFields h hfields (Nat.not_lt.mp hlt)
    rw [List.drop_eq_nil_of_le hlength] at hremaining
    rw [hrest, Option.bind_some, hremaining.afterBlanks_nil]

/-- Behind the position stands the next token, and everything behind it. -/
theorem exists_afterPosition (h : Token.Remaining last.endOffset cs ts)
    (hfields : ∀ t ∈ ts.take 3, IsField t) {t : Token} (ht : ts[3]? = some t) :
    ∃ front g data u more, cs = front ++ (g ++ data) ∧ (last :: ts)[3]? = some u
      ∧ u.endOffset = last.endOffset + Token.byteLength front
      ∧ AllBlank g ∧ t.offset = u.endOffset + Token.byteLength g
      ∧ data = t.text.toList ++ more ∧ t.text.toList ≠ []
      ∧ afterPosition cs = some data := by
  obtain ⟨hlt, rfl⟩ := List.getElem?_eq_some_iff.mp ht
  obtain ⟨front, rest, u, rfl, hrest, hu, huoffset, hremaining⟩ :=
    exists_afterFields h hfields (Nat.le_of_lt hlt)
  rw [List.drop_eq_getElem_cons hlt] at hremaining
  obtain ⟨g, more, hg, rfl, hoffset, hne, hblanks⟩ := hremaining.exists_afterBlanks
  refine ⟨front, g, _, u, more, rfl, hu, huoffset, hg, hoffset, rfl, hne, ?_⟩
  rw [afterPosition_eq, hrest, Option.bind_some, hblanks]

end Fields

/-! ## Commands that summon -/

/-- A command that summons, read in tokens: its id, what stands behind the id, and the
    tokens there. -/
structure Summons (c : Command) (id : Token) (tokens : List Token) (rest : List Char) : Prop where
  ofText_eq : ∃ key, Token.ofText c.raw = key :: id :: tokens
  args_eq : c.args = id.text :: tokens.map Token.text
  nesting_eq : ∃ m, Token.nesting? id.text.toList = some m
  raw_eq : ∃ front, c.raw.toList = front ++ rest ∧ id.endOffset = Token.byteLength front
  remaining : Token.Remaining id.endOffset rest tokens
  afterSummon_eq : ∀ name, afterSummon name c.raw.toList
    = afterPhrase name.toList (dropDefaultNamespace (id.text.toList ++ rest))

/-- Only a command has a name. -/
theorem kind_of_key?_eq_some {c : Command} {key : String} (h : c.key? = some key) :
    c.kind = .command := by
  cases c with
  | blank line => exact absurd h.symm (Option.some_ne_none key)
  | comment line raw => exact absurd h.symm (Option.some_ne_none key)
  | _ => rfl

/-- The first token of a line stands at its beginning. -/
theorem exists_append_of_ofChars_trim {cs : List Char} {t : Token} {ts : List Token}
    (h : Token.ofChars 0 (trim cs) = t :: ts) (hline : '\n' ∉ cs) :
    ∃ rest, trim cs = t.text.toList ++ rest ∧ t.offset = 0
      ∧ Token.Remaining t.endOffset rest ts := by
  obtain ⟨g, w, rest, m, hg, hw, hs, htrim, rfl, rfl⟩ := Token.exists_append_of_ofChars_eq_cons h
  have hnil : g = [] := by
    cases g with
    | nil => rfl
    | cons d g =>
        have hsolid : StartsSolid (trim cs) := startsSolid_trim
        rw [htrim] at hsolid
        have hblank := hg d List.mem_cons_self
        exact absurd hblank (Bool.eq_false_iff.mp (startsSolid_cons.mp hsolid))
  subst hnil
  rw [List.nil_append] at htrim
  have hend : EndsSolid (trim cs) := endsSolid_trim
  have hnotMem : '\n' ∉ trim cs := fun hmem => hline (trim_subset cs hmem)
  rw [htrim] at hend hnotMem
  refine ⟨rest, ?_, rfl, ⟨⟨m, hs⟩, hend.of_append, ?_, ?_⟩⟩
  · rw [String.toList_ofList]
    exact htrim
  · exact fun hmem => hnotMem (List.mem_append_right w hmem)
  · rw [Token.endOffset, ← Token.byteLength_eq_utf8ByteSize]
    rfl

/-- A `summon` with an id is parted into the id, the further tokens and the text of these. -/
theorem exists_summons {line : Nat} {cs : List Char} {c : Command}
    (hc : c = Command.ofChars line cs) (hline : '\n' ∉ cs) (hkey : c.key? = some "summon")
    (hid : c.args.head? = some id) :
    ∃ idToken tokens rest, idToken.text = id ∧ Summons c idToken tokens rest := by
  subst hc
  obtain ⟨key, args, htokens, hkey', hargs⟩ :=
    Command.exists_key_of_kind_ofChars (kind_of_key?_eq_some hkey)
  have hsummon : key.text = "summon" := Option.some.inj (hkey'.symm.trans hkey)
  rw [hargs] at hid
  cases args with
  | nil => exact absurd hid.symm (Option.some_ne_none id)
  | cons idToken tokens =>
      obtain ⟨behind, htrim, hzero, hbehind⟩ := exists_append_of_ofChars_trim htokens hline
      obtain ⟨g, rest, m, hne, hg, rfl, hoffset, hw, hrest⟩ := hbehind.exists_cons
      have hraw : (Command.ofChars line cs).raw.toList
          = "summon".toList ++ (g ++ (idToken.text.toList ++ rest)) := by
        rw [Command.toList_raw_ofChars, htrim, hsummon]
      have hsolid : StartsSolid (idToken.text.toList ++ rest) :=
        (Token.startsSolid_of_nesting? hw).append (Token.ne_nil_of_nesting? hw)
      refine ⟨idToken, tokens, rest, Option.some.inj hid, ⟨⟨key, ?_⟩, hargs, ⟨m, hw⟩,
        ⟨"summon".toList ++ (g ++ idToken.text.toList), ?_, ?_⟩, hrest, ?_⟩⟩
      · rw [Token.ofText, Command.toList_raw_ofChars, htokens]
      · rw [hraw]
        simp only [List.append_assoc]
      · rw [Token.endOffset, hoffset, Token.endOffset, hzero, hsummon, Token.byteLength_append,
          Token.byteLength_append, Token.byteLength_toList, Token.byteLength_toList]
        omega
      · intro name
        simp only [afterSummon, hraw, afterPhrase_eq_some_iff.mpr rfl, Option.bind_eq_bind,
          Option.bind_some, afterBlanks_append hne hg hsolid]

namespace Summons

variable {c : Command} {idToken : Token} {tokens : List Token} {behind : List Char}

/-- Behind `summon` and a name there is the rest of the id and then the rest of the command. -/
theorem afterSummon_eq_map (h : Summons c idToken tokens rest) (hname : IsEntityName name) :
    afterSummon name c.raw.toList = (behindName name idToken.text.toList).map (· ++ rest) := by
  rw [h.afterSummon_eq, dropDefaultNamespace_append h.remaining.atGap,
    afterPhrase_append hname.isSolid.2 h.remaining.atGap, behindName]

/-- A cloud is summoned if a word may end behind the name of the cloud in the id. -/
theorem summonsCloud_eq (h : Summons c idToken tokens rest) :
    summonsCloud c.raw.toList
      = (behindName "area_effect_cloud" idToken.text.toList).any wordMayEnd := by
  rw [summonsCloud, h.afterSummon_eq_map isEntityName_cloud]
  cases behindName "area_effect_cloud" idToken.text.toList with
  | none => rfl
  | some behind => exact wordMayEnd_append h.remaining.atGap behind

/-- Behind a longer id than the name of the entity the position does not begin. -/
theorem bind_afterPosition_eq_none (h : Summons c idToken tokens rest) (hname : IsEntityName name)
    (hbehind : behindName name idToken.text.toList ≠ some []) :
    (afterSummon name c.raw.toList).bind afterPosition = none := by
  rw [h.afterSummon_eq_map hname]
  cases hsome : behindName name idToken.text.toList with
  | none => rfl
  | some behind =>
      obtain ⟨d, ds, rfl⟩ := List.exists_cons_of_ne_nil fun hnil => hbehind (hnil ▸ hsome)
      obtain ⟨m, hm⟩ := h.nesting_eq
      have hd : isBlank d = false := by
        rcases (behindName_eq_some_iff hname).mp hsome with hid | hid
        · rw [hid, String.toList_append, String.toList_ofList] at hm
          exact Token.isBlank_of_nesting?_append hname.isClosed hm
        · rw [hid, ← String.append_assoc, String.toList_append, String.toList_ofList] at hm
          exact Token.isBlank_of_nesting?_append hname.isClosed_qualified hm
      show afterPosition (d :: (ds ++ rest)) = none
      rw [afterPosition, afterField, afterBlanks_of_startsSolid (startsSolid_cons.mpr hd)]
      rfl

/-- If the id is the name, what follows the position is found in the rest of the command. -/
theorem bind_afterPosition (h : Summons c idToken tokens rest) (hname : IsEntityName name)
    (hbehind : behindName name idToken.text.toList = some []) :
    (afterSummon name c.raw.toList).bind afterPosition = afterPosition rest := by
  rw [h.afterSummon_eq_map hname, hbehind]
  rfl

/-- The tokens of the command are `summon`, the id and the further ones. -/
theorem getElem?_ofText (h : Summons c idToken tokens rest) (k : Nat) :
    (Token.ofText c.raw)[k + 1]? = (idToken :: tokens)[k]? := by
  obtain ⟨key, hkey⟩ := h.ofText_eq
  rw [hkey, List.getElem?_cons_succ]

/-- Where the position ends, and where the next token begins, the text can be cut. -/
theorem exists_afterPosition (h : Summons c idToken tokens rest)
    (hfields : ∀ t ∈ tokens.take 3, IsField t) (hlength : 3 < tokens.length) :
    ∃ g data u t more, AllBlank g ∧ data = t.text.toList ++ more ∧ t.text.toList ≠ []
      ∧ (Token.ofText c.raw)[4]? = some u ∧ (Token.ofText c.raw)[5]? = some t
      ∧ Command.textFrom u.endOffset c.raw.toList = g ++ data
      ∧ (∀ k more', data = k :: more' →
        Command.textFrom (t.offset + k.utf8Size) c.raw.toList = more')
      ∧ '\n' ∉ data ∧ afterPosition rest = some data := by
  obtain ⟨front, g, data, u, more, hrest, hu, huoffset, hg, htoffset, hdata, hne, hposition⟩ :=
    Upgrade.exists_afterPosition h.remaining hfields (List.getElem?_eq_getElem hlength)
  obtain ⟨start, hraw, hstart⟩ := h.raw_eq
  have hline := h.remaining.notMem
  rw [hrest, List.mem_append, List.mem_append, not_or, not_or] at hline
  refine ⟨g, data, u, tokens[3], more, hg, hdata, hne, ?_, ?_, ?_, ?_, hline.2.2, hposition⟩
  · rw [h.getElem?_ofText, hu]
  · rw [h.getElem?_ofText, List.getElem?_cons_succ, List.getElem?_eq_getElem hlength]
  · rw [huoffset, hstart, hraw, hrest, ← Token.byteLength_append, ← List.append_assoc,
      Command.textFrom_append]
  · rintro k more' rfl
    have hoffset : tokens[3].offset + k.utf8Size
        = Token.byteLength (start ++ front ++ g ++ [k]) := by
      rw [htoffset, huoffset, hstart]
      simp only [Token.byteLength_append, Token.byteLength_cons, Token.byteLength_nil]
      omega
    have htext : c.raw.toList = start ++ front ++ g ++ [k] ++ more' := by
      rw [hraw, hrest]
      simp only [List.append_assoc, List.singleton_append]
    rw [hoffset, htext, Command.textFrom_append]

end Summons

/-! ## What is found -/

/-- What is reported is this issue alone if the condition holds, and nothing otherwise. -/
def ReportsIff (issues : List Issue) (issue : Issue) (p : Prop) : Prop :=
  (p → issues = [issue]) ∧ (¬p → issues = [])

/-- An issue under a condition is reported exactly if the condition holds. -/
theorem reportsIff_ite {b : Bool} {p : Prop} (h : b = true ↔ p) (issue : Issue) :
    ReportsIff (if b then [issue] else []) issue p :=
  ⟨fun hp => if_pos (h.mpr hp), fun hp => if_neg fun hb => hp (h.mp hb)⟩

/-- Behind the third coordinate no word names visible data. -/
def NamesNoVisibleData (c : Command) : Prop :=
  ∃ t, (Token.ofText c.raw)[4]? = some t
    ∧ ∀ name ∈ ["Effects", "Potion", "Particle"], ∀ place,
      ¬WordAt name.toList place (Command.textFrom t.endOffset c.raw.toList)

/-- The token behind the coordinates begins with a brace, behind which `Marker` is set. -/
def SetsMarkerBehindPosition (c : Command) : Prop :=
  ∃ t, (Token.ofText c.raw)[5]? = some t ∧ t.text.toList.head? = some '{'
    ∧ SetsMarker (Command.textFrom (t.offset + '{'.utf8Size) c.raw.toList)

namespace Summons

variable {c : Command} {idToken : Token} {tokens : List Token}

/-- The pattern for clouds that cannot be seen says what data it looks for, and where. -/
theorem summonsInvisibleCloud_iff (h : Summons c idToken tokens rest)
    (hfields : ∀ t ∈ tokens.take 3, IsField t)
    (hid : behindName "area_effect_cloud" idToken.text.toList = some []) :
    summonsInvisibleCloud c.raw.toList = true ↔ 3 < tokens.length ∧ NamesNoVisibleData c := by
  rw [summonsInvisibleCloud, h.bind_afterPosition isEntityName_cloud hid]
  by_cases hlength : 3 < tokens.length
  · obtain ⟨g, data, u, -, -, hg, -, -, hu, -, htext, -, hline, hposition⟩ :=
      h.exists_afterPosition hfields hlength
    have hsolid : ∀ name ∈ visibleData, IsSolid name.toList := by decide
    have hwords : NamesNoVisibleData c
        ↔ ∀ name ∈ visibleData, ¬∃ place, WordAt name.toList place data := by
      constructor
      · rintro ⟨t, ht, hnone⟩ name hname hdata
        obtain rfl : u = t := Option.some.inj (hu.symm.trans ht)
        obtain ⟨place, hplace⟩ := (exists_wordAt_append_iff (hsolid name hname) hg).mpr hdata
        rw [← htext] at hplace
        exact hnone name hname place hplace
      · intro hnone
        refine ⟨u, hu, ?_⟩
        intro name hname place hplace
        rw [htext] at hplace
        exact hnone name hname
          ((exists_wordAt_append_iff (hsolid name hname) hg).mp ⟨place, hplace⟩)
    have hfeed : data.contains '\n' = false := by
      rw [List.contains_eq_mem, decide_eq_false hline]
    rw [hposition]
    show (!data.contains '\n' && !visibleData.any fun name => hasWord name.toList data) = true ↔ _
    rw [hfeed, Bool.not_false, Bool.true_and, Bool.not_eq_true', List.any_eq_false, hwords,
      and_iff_right hlength]
    simp only [hasWord_eq_true_iff]
  · rw [afterPosition_eq_none h.remaining hfields (Nat.not_lt.mp hlength)]
    exact iff_of_false Bool.false_ne_true fun hand => hlength hand.1

/-- The pattern for markers says that the data behind the position set `Marker`. -/
theorem summonsMarkerArmorStand_iff (h : Summons c idToken tokens rest)
    (hfields : ∀ t ∈ tokens.take 3, IsField t)
    (hid : behindName "armor_stand" idToken.text.toList = some []) :
    summonsMarkerArmorStand c.raw.toList = true ↔ SetsMarkerBehindPosition c := by
  rw [summonsMarkerArmorStand_eq_any, h.bind_afterPosition isEntityName_armorStand hid]
  by_cases hlength : 3 < tokens.length
  · obtain ⟨-, data, -, t, more, -, hdata, hne, -, ht, -, hbehind, hline, hposition⟩ :=
      h.exists_afterPosition hfields hlength
    obtain ⟨k, ks, htoken⟩ := List.exists_cons_of_ne_nil hne
    have hcons : data = k :: (ks ++ more) := by
      rw [hdata, htoken, List.cons_append]
    rw [hcons, List.mem_cons, not_or] at hline
    rw [hposition, Option.any_some, hcons, behind, Bool.and_eq_true, beq_iff_eq,
      occursOnLine_markerSet_iff rfl hline.2]
    constructor
    · rintro ⟨rfl, hmarker⟩
      refine ⟨t, ht, ?_, ?_⟩
      · rw [htoken]
        rfl
      · rwa [hbehind _ _ hcons]
    · rintro ⟨t', ht', hhead, hmarker⟩
      obtain rfl : t = t' := Option.some.inj (ht.symm.trans ht')
      rw [htoken] at hhead
      obtain rfl : k = '{' := Option.some.inj hhead
      rw [hbehind _ _ hcons] at hmarker
      exact ⟨rfl, hmarker⟩
  · rw [afterPosition_eq_none h.remaining hfields (Nat.not_lt.mp hlength)]
    refine iff_of_false Bool.false_ne_true ?_
    rintro ⟨t, ht, -⟩
    rw [h.getElem?_ofText, List.getElem?_cons_succ] at ht
    exact hlength (List.getElem?_eq_some_iff.mp ht).1

/-- No other entity is taken for an armor stand. -/
theorem summonsMarkerArmorStand_eq_false (h : Summons c idToken tokens rest)
    (hid : ¬NamesEntity idToken.text "armor_stand") :
    summonsMarkerArmorStand c.raw.toList = false := by
  have hname := isEntityName_armorStand
  rw [summonsMarkerArmorStand_eq_any,
    h.bind_afterPosition_eq_none hname ((behindName_eq_some_nil_iff hname).not.mpr hid)]
  rfl

/-- No other entity is taken for a cloud that cannot be seen. -/
theorem summonsInvisibleCloud_eq_false (h : Summons c idToken tokens rest)
    (hid : ¬NamesEntity idToken.text "area_effect_cloud") :
    summonsInvisibleCloud c.raw.toList = false := by
  have hname := isEntityName_cloud
  rw [summonsInvisibleCloud,
    h.bind_afterPosition_eq_none hname ((behindName_eq_some_nil_iff hname).not.mpr hid)]

/-- A cloud is summoned if the id names one, whatever stands behind the name but a character of
    a word. -/
theorem summonsCloud_iff (h : Summons c idToken tokens rest) :
    summonsCloud c.raw.toList = true
      ↔ ∃ behind, NamesEntity idToken.text ("area_effect_cloud" ++ behind)
        ∧ ∀ k ∈ behind.toList.head?, isWord k = false := by
  rw [h.summonsCloud_eq, any_wordMayEnd_iff]
  simp only [behindName_eq_some_iff isEntityName_cloud]
  constructor
  · rintro ⟨behind, hid, hend⟩
    refine ⟨String.ofList behind, hid, ?_⟩
    rwa [String.toList_ofList]
  · rintro ⟨behind, hid, hend⟩
    refine ⟨behind.toList, ?_, hend⟩
    rwa [String.ofList_toList]

end Summons

/-- **What is found in a command that summons, in tokens.**  If the words of its position
    have no blanks, a cloud is reported exactly if the command has no data or names no visible
    ones behind the position, and an armor stand exactly if its data, which begin with a
    brace, set `Marker`.  Of other entities only such are reported whose ids go on behind the
    name of the cloud with no word character, and these only without data. -/
theorem entityIssues_of_summon {line : Nat} {text id : String} (hline : '\n' ∉ text.toList)
    (hkey : (Command.ofText line text).key? = some "summon")
    (hid : (Command.ofText line text).args.head? = some id)
    (hposition : ∀ arg ∈ ((Command.ofText line text).args.drop 1).take 3,
      ∀ c ∈ arg.toList, isBlank c = false) :
    let c := Command.ofText line text
    (NamesEntity id "area_effect_cloud" →
        ReportsIff (entityIssues c) .invisibleCloud (c.args.length < 5 ∨ NamesNoVisibleData c))
      ∧ (NamesEntity id "armor_stand" →
        ReportsIff (entityIssues c) .markerArmorStand (SetsMarkerBehindPosition c))
      ∧ (¬NamesEntity id "area_effect_cloud" → ¬NamesEntity id "armor_stand" →
        ReportsIff (entityIssues c) .invisibleCloud
          (c.args.length < 5 ∧ ∃ behind, NamesEntity id ("area_effect_cloud" ++ behind)
            ∧ ∃ k, behind.toList.head? = some k ∧ isWord k = false)) := by
  intro c
  obtain ⟨idToken, tokens, rest, rfl, h⟩ := exists_summons (c := c) rfl hline hkey hid
  have hargs : c.args = idToken.text :: tokens.map Token.text := h.args_eq
  have hlength : c.args.length = tokens.length + 1 := by
    rw [hargs, List.length_cons, List.length_map]
  have hfields : ∀ t ∈ tokens.take 3, IsField t := by
    intro t ht
    refine hposition t.text ?_
    show t.text ∈ (c.args.drop 1).take 3
    rw [hargs, List.drop_succ_cons, List.drop_zero, ← List.map_take]
    exact List.mem_map_of_mem ht
  have hissues : entityIssues c = if summonsMarkerArmorStand c.raw.toList then [.markerArmorStand]
      else if summonsInvisibleCloud c.raw.toList
        || (summonsCloud c.raw.toList && c.args.length < argsWithData) then [.invisibleCloud]
      else [] := rfl
  have hcloud : NamesEntity idToken.text "area_effect_cloud" →
      ¬NamesEntity idToken.text "armor_stand" := by
    rintro (hid | hid) (hid' | hid') <;> exact absurd (hid.symm.trans hid') (by decide)
  refine ⟨?_, ?_, ?_⟩
  · intro hname
    have hfound : summonsCloud c.raw.toList = true := by
      refine h.summonsCloud_iff.mpr ⟨"", ?_, fun k hk => nomatch hk⟩
      rwa [String.append_empty]
    have hnil := (behindName_eq_some_nil_iff isEntityName_cloud).mpr hname
    rw [hissues, h.summonsMarkerArmorStand_eq_false (hcloud hname), hfound, Bool.true_and]
    refine reportsIff_ite ?_ _
    rw [Bool.or_eq_true, h.summonsInvisibleCloud_iff hfields hnil, decide_eq_true_eq, hlength,
      argsWithData]
    by_cases hdata : 3 < tokens.length
    · rw [and_iff_right hdata, or_comm]
    · exact iff_of_true (.inr (by omega)) (.inl (by omega))
  · intro hname
    have hother : ¬NamesEntity idToken.text "area_effect_cloud" := fun h => hcloud h hname
    have hnone : summonsCloud c.raw.toList = false := by
      rw [h.summonsCloud_eq]
      rcases hname with hname | hname <;> rw [hname] <;> rfl
    have hnil := (behindName_eq_some_nil_iff isEntityName_armorStand).mpr hname
    rw [hissues, h.summonsInvisibleCloud_eq_false hother, hnone]
    exact reportsIff_ite (h.summonsMarkerArmorStand_iff hfields hnil) _
  · intro hother hname
    rw [hissues, h.summonsMarkerArmorStand_eq_false hname,
      h.summonsInvisibleCloud_eq_false hother]
    refine reportsIff_ite ?_ _
    rw [Bool.false_or, Bool.and_eq_true, h.summonsCloud_iff, decide_eq_true_eq, and_comm,
      argsWithData]
    refine and_congr_right fun _ => exists_congr fun behind => and_congr_right fun hbehind => ?_
    -- the id is not the name of the cloud itself, so something is behind the name
    cases hhead : behind.toList.head? with
    | none =>
        have hempty : behind = "" := String.toList_eq_nil_iff.mp (List.head?_eq_none_iff.mp hhead)
        rw [hempty, String.append_empty] at hbehind
        exact absurd hbehind hother
    | some k => simp

/-- The second quote is never closed, so the data go on to the end of the line, and there
    `Marker` stands as a word of its own. -/
theorem entityIssues_of_summon_unclosed :
    let c := Command.ofText 1 "summon\tarmor_stand ~ ~1  ~ \x7bTags:[\"a\"], b:\" Marker : TRUE"
    c.key? = some "summon" ∧ c.args.head? = some "armor_stand" ∧ c.args.length = 5
      ∧ SetsMarkerBehindPosition c ∧ entityIssues c = [.markerArmorStand] := by
  intro c
  have hkey : c.key? = some "summon" := by decide +kernel
  have hid : c.args.head? = some "armor_stand" := by decide +kernel
  have hposition : ∀ arg ∈ (c.args.drop 1).take 3, ∀ k ∈ arg.toList, isBlank k = false := by
    have hsolid : ∀ arg ∈ (c.args.drop 1).take 3, IsSolid arg.toList := by decide +kernel
    exact fun arg harg => (hsolid arg harg).2
  have hissues := (entityIssues_of_summon (by decide) hkey hid hposition).2.1 (.inl rfl)
  have hmarker : SetsMarkerBehindPosition c := by
    refine ⟨⟨27, "\x7bTags:[\"a\"], b:\" Marker : TRUE"⟩, by decide +kernel, rfl, ?_⟩
    refine ⟨"Tags:[\"a\"], b:\" ".toList, "Marker : TRUE".toList, by decide +kernel, ?_, ?_⟩
    · intro k hk
      obtain rfl : ' ' = k := Option.some.inj hk
      rfl
    exact ⟨[' '], [' '], "TRUE".toList, [], by decide, by decide, by decide, .inr (by decide),
      fun k hk => nomatch hk⟩
  exact ⟨hkey, hid, by decide +kernel, hmarker, hissues.1 hmarker⟩

end PackLint.Upgrade
