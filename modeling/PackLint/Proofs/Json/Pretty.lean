import PackLint.Proofs.Json.Layout

/-! # What pretty text says

    The pretty text of a value without binary fractions is the text of no other such value,
    and nothing that may stand behind a value can be taken for a part of it.  A string is
    read back from its text; an integer ends where its digits do; and what an array or an
    object begins with tells whether a first item or member follows. -/

namespace PackLint.Json

/-! ## Reading strings back -/

/-- The hexadecimal digit of a number below sixteen is read as this number. -/
theorem hexValue?_digitChar {n : Nat} (h : n < 16) : hexValue? (Nat.digitChar n) = some n := by
  have hall : ∀ n < 16, hexValue? (Nat.digitChar n) = some n := by
    decide
  exact hall n h

/-- The four digits that a control character is written with are read back. -/
theorem unicodeEscape?_of_control {c : Char} (h : c.toNat < 0x20) (cs : List Char) :
    unicodeEscape? ('0' :: '0' :: Nat.digitChar (c.toNat / 16) :: Nat.digitChar (c.toNat % 16)
      :: cs) = some (c, cs) := by
  have hzero : hexValue? '0' = some 0 := rfl
  have hunit : ((0 * 16 + 0) * 16 + c.toNat / 16) * 16 + c.toNat % 16 = c.toNat := by
    omega
  simp only [unicodeEscape?, codeUnit?, hzero, hexValue?_digitChar (show c.toNat / 16 < 16 by omega),
    hexValue?_digitChar (show c.toNat % 16 < 16 by omega), Option.bind_eq_bind, Option.bind_some,
    Option.pure_def, hunit]
  rw [if_neg (by omega), if_neg (by omega), Char.ofNat_toNat]

/-- A character is written as itself, or as an escape that is read back. -/
theorem escapeChar_cases (c : Char) :
    (∃ code, escapeChar c = '\\' :: code ∧ ∀ cs, escape? (code ++ cs) = some (c, cs))
      ∨ escapeChar c = [c] ∧ c ≠ '"' ∧ c ≠ '\\' ∧ ¬c.toNat < 0x20 := by
  rw [escapeChar]
  -- the characters with a short escape
  iterate 7
    split
    · rename_i hc
      subst hc
      exact .inl ⟨_, rfl, fun cs => rfl⟩
  split
  · rename_i hcontrol
    exact .inl ⟨_, rfl, unicodeEscape?_of_control hcontrol⟩
  · exact .inr ⟨rfl, by assumption, by assumption, by assumption⟩

/-- Behind a backslash an escape is read, and then the rest of the string. -/
theorem stringRest?_backslash {c : Char} {code cs : List Char}
    (h : escape? code = some (c, cs)) :
    stringRest? ('\\' :: code) = (stringRest? cs).map fun p => (c :: p.1, p.2) := by
  rw [stringRest?, if_neg (by decide), if_pos rfl]
  split
  · rename_i hnone
    rw [h] at hnone
    cases hnone
  · rename_i hsome
    rw [h] at hsome
    obtain ⟨rfl, rfl⟩ := Prod.mk.inj (Option.some.inj hsome)
    rfl

/-- A character is read back from what it is written as. -/
theorem stringRest?_escapeChar_append (c : Char) (cs : List Char) :
    stringRest? (escapeChar c ++ cs) = (stringRest? cs).map fun p => (c :: p.1, p.2) := by
  obtain ⟨code, hcode, hescape⟩ | ⟨hself, hquote, hbackslash, hprints⟩ := escapeChar_cases c
  · rw [hcode, List.cons_append, stringRest?_backslash (hescape cs)]
  · rw [hself, List.singleton_append, stringRest?, if_neg hquote, if_neg hbackslash,
      if_neg hprints]

/-- A string is read back from its text, whatever follows. -/
theorem stringRest?_escape_append (cs rest : List Char) :
    stringRest? (cs.flatMap escapeChar ++ '"' :: rest) = some (cs, rest) := by
  induction cs with
  | nil => rw [List.flatMap_nil, List.nil_append, stringRest?, if_pos rfl]
  | cons c cs ih =>
      rw [List.flatMap_cons, List.append_assoc, stringRest?_escapeChar_append, ih]
      rfl

/-- A quoted string shows where it ends, so no rest can be taken for a part of it. -/
theorem quote_append_inj {cs ds xs ys : List Char} (h : quote cs ++ xs = quote ds ++ ys) :
    cs = ds ∧ xs = ys := by
  have hread : ∀ cs xs : List Char, stringRest? ((quote cs ++ xs).tail) = some (cs, xs) := by
    intro cs xs
    rw [quote, List.cons_append, List.cons_append, List.append_assoc, List.tail_cons]
    exact stringRest?_escape_append cs xs
  have heq : some (cs, xs) = some (ds, ys) := by
    rw [← hread cs xs, ← hread ds ys, h]
  exact Prod.mk.inj (Option.some.inj heq)

/-! ## Where integers end -/

/-- No digit follows. -/
def EndsNumber (cs : List Char) : Prop :=
  ∀ c ∈ cs.head?, c.isDigit = false

/-- A number ends in front of any character that is no digit. -/
theorem endsNumber_cons {c : Char} {cs : List Char} (h : c.isDigit = false) :
    EndsNumber (c :: cs) := by
  intro d hd
  obtain rfl : c = d := Option.some.inj hd
  exact h

/-- A number is written with digits only. -/
theorem isDigit_of_mem_toDigits {n : Nat} {c : Char} (h : c ∈ Nat.toDigits 10 n) :
    c.isDigit = true :=
  Nat.isDigit_of_mem_toDigits (by decide) (by decide) h

/-- In front of a text that ends a number, the digits of a number can be told from the text. -/
theorem takeWhile_isDigit_toDigits_append (n : Nat) {xs : List Char} (hxs : EndsNumber xs) :
    (Nat.toDigits 10 n ++ xs).takeWhile Char.isDigit = Nat.toDigits 10 n := by
  have hdigits : ∀ c ∈ Nat.toDigits 10 n, c.isDigit = true := fun c => isDigit_of_mem_toDigits
  have hnil : xs.takeWhile Char.isDigit = [] := by
    cases xs with
    | nil => rfl
    | cons c xs => rw [List.takeWhile_cons, hxs c rfl]; rfl
  rw [List.takeWhile_append_of_pos hdigits, hnil, List.append_nil]

/-- What begins with the digits of a number determines the number and the rest. -/
theorem toDigits_append_inj {m n : Nat} {xs ys : List Char} (hxs : EndsNumber xs)
    (hys : EndsNumber ys) (h : Nat.toDigits 10 m ++ xs = Nat.toDigits 10 n ++ ys) :
    m = n ∧ xs = ys := by
  have hdigits : Nat.toDigits 10 m = Nat.toDigits 10 n := by
    rw [← takeWhile_isDigit_toDigits_append m hxs, h, takeWhile_isDigit_toDigits_append n hys]
  refine ⟨?_, List.append_cancel_left (hdigits ▸ h)⟩
  calc
    m = Nat.ofDigitChars 10 (Nat.toDigits 10 m) 0 := Nat.ofDigitChars_ten_toDigits.symm
    _ = Nat.ofDigitChars 10 (Nat.toDigits 10 n) 0 := by rw [hdigits]
    _ = n := Nat.ofDigitChars_ten_toDigits

/-- Every number is written with at least one digit. -/
theorem exists_toDigits_eq_cons (n : Nat) :
    ∃ c cs, Nat.toDigits 10 n = c :: cs ∧ c.isDigit = true := by
  obtain ⟨c, cs, h⟩ := List.exists_cons_of_ne_nil (Nat.toDigits_ne_nil : Nat.toDigits 10 n ≠ [])
  exact ⟨c, cs, h, isDigit_of_mem_toDigits (h ▸ List.mem_cons_self)⟩

/-- What begins with an integer determines the integer and the rest, minus sign included. -/
theorem intText_append_inj {m n : Int} {xs ys : List Char} (hxs : EndsNumber xs)
    (hys : EndsNumber ys) (h : intText m ++ xs = intText n ++ ys) : m = n ∧ xs = ys := by
  have hsign : ∀ (k : Nat) (xs ys : List Char), '-' :: xs ≠ Nat.toDigits 10 k ++ ys := by
    intro k xs ys heq
    obtain ⟨c, cs, hk, hc⟩ := exists_toDigits_eq_cons k
    rw [hk, List.cons_append] at heq
    obtain rfl : '-' = c := (List.cons.inj heq).1
    exact absurd hc (by decide)
  rw [intText, intText] at h
  split at h <;> split at h
  · obtain ⟨habs, hrest⟩ := toDigits_append_inj hxs hys (List.cons.inj h).2
    exact ⟨by omega, hrest⟩
  · exact absurd h (hsign _ _ _)
  · exact absurd h.symm (hsign _ _ _)
  · obtain ⟨habs, hrest⟩ := toDigits_append_inj hxs hys h
    exact ⟨by omega, hrest⟩

/-! ## Items and members -/

variable {α : Type} {f : α → List Char} {indent : Nat}

/-- The lines of some items or members behind the first one. -/
def furtherLines (f : α → List Char) (indent : Nat) (as : List α) : List Char :=
  as.flatMap fun a => ',' :: (newLine indent ++ f a)

/-- A member in its line. -/
def memberText (indent : Nat) (m : String × Json) : List Char :=
  quote m.1.toList ++ ':' :: ' ' :: prettyText indent m.2

@[simp] theorem furtherLines_nil : furtherLines f indent [] = [] :=
  rfl

@[simp] theorem furtherLines_cons (a : α) (as : List α) :
    furtherLines f indent (a :: as)
      = ',' :: (newLine indent ++ (f a ++ furtherLines f indent as)) := by
  rw [furtherLines, List.flatMap_cons, List.cons_append, List.append_assoc, furtherLines]

/-- Items or members in brackets. -/
def bracketed (opening closing : Char) (f : α → List Char) (indent : Nat) : List α → List Char
  | [] => [opening, closing]
  | a :: as =>
      opening :: (newLine (indent + 1) ++ (f a ++ furtherLines f (indent + 1) as)
        ++ newLine indent ++ [closing])

/-- The first item stands on a line of its own, and each further one behind a comma. -/
theorem prettyItems_cons (indent : Nat) (v : Json) (vs : List Json) :
    prettyItems indent (v :: vs)
      = newLine indent ++ (prettyText indent v ++ furtherLines (prettyText indent) indent vs) := by
  induction vs generalizing v with
  | nil => rw [prettyItems, furtherLines_nil, List.append_nil]
  | cons w vs ih => rw [prettyItems, ih, furtherLines_cons, List.append_assoc]

/-- The first member stands on a line of its own, and each further one behind a comma. -/
theorem prettyMembers_cons (indent : Nat) (m : String × Json) (ms : List (String × Json)) :
    prettyMembers indent (m :: ms)
      = newLine indent ++ (memberText indent m ++ furtherLines (memberText indent) indent ms) := by
  induction ms generalizing m with
  | nil =>
      obtain ⟨name, v⟩ := m
      rw [prettyMembers, furtherLines_nil, List.append_nil, memberText, List.append_assoc]
  | cons n ms ih =>
      obtain ⟨name, v⟩ := m
      rw [prettyMembers, ih, furtherLines_cons]
      simp only [memberText, List.append_assoc, List.cons_append]

/-- An array is written as its items between brackets, one level further in. -/
theorem prettyText_arr (indent : Nat) (items : List Json) :
    prettyText indent (.arr items) = bracketed '[' ']' (prettyText (indent + 1)) indent items := by
  cases items with
  | nil => rfl
  | cons v vs => rw [prettyText, prettyItems_cons, bracketed, List.cons_append, List.cons_append]

/-- An object is written as its members between braces, one level further in. -/
theorem prettyText_obj (indent : Nat) (members : List (String × Json)) :
    prettyText indent (.obj members)
      = bracketed '\x7b' '\x7d' (memberText (indent + 1)) indent members := by
  cases members with
  | nil => rfl
  | cons m ms => rw [prettyText, prettyMembers_cons, bracketed, List.cons_append, List.cons_append]

/-- The texts of the values tell these apart, and nothing that follows joins one of them. -/
def Separates (f : α → List Char) (as bs : List α) : Prop :=
  ∀ a ∈ as, ∀ b ∈ bs, ∀ xs ys, EndsNumber xs → EndsNumber ys → f a ++ xs = f b ++ ys →
    a = b ∧ xs = ys

/-- Behind an item the text goes on with a comma or with a new line, so a number has ended. -/
theorem endsNumber_furtherLines_append (f : α → List Char) (indent : Nat) (as : List α)
    (xs : List Char) : EndsNumber (furtherLines f indent as ++ '\n' :: xs) := by
  cases as with
  | nil => exact endsNumber_cons rfl
  | cons a as => exact endsNumber_cons rfl

/-- The lines of items or members tell what they are, down to the line behind them. -/
theorem furtherLines_append_inj {as bs : List α} (hf : Separates f as bs) {xs ys : List Char}
    (h : furtherLines f indent as ++ '\n' :: xs = furtherLines f indent bs ++ '\n' :: ys) :
    as = bs ∧ xs = ys := by
  induction as generalizing bs with
  | nil =>
      cases bs with
      | nil => exact ⟨rfl, (List.cons.inj h).2⟩
      | cons b bs => exact absurd (List.cons.inj h).1 (by decide)
  | cons a as ih =>
      cases bs with
      | nil => exact absurd (List.cons.inj h).1 (by decide)
      | cons b bs =>
          simp only [furtherLines_cons, List.cons_append, List.append_assoc, List.cons.injEq,
            true_and, List.append_cancel_left_eq] at h
          obtain ⟨rfl, hrest⟩ := hf a List.mem_cons_self b List.mem_cons_self _ _
            (endsNumber_furtherLines_append f indent as xs)
            (endsNumber_furtherLines_append f indent bs ys) h
          have htail : Separates f as bs := fun c hc d hd =>
            hf c (List.mem_cons_of_mem a hc) d (List.mem_cons_of_mem a hd)
          obtain ⟨rfl, hxs⟩ := ih htail hrest
          exact ⟨rfl, hxs⟩

/-- If the lines of two lists can be told apart, so can the lists when they are bracketed. -/
theorem bracketed_append_inj {opening closing : Char} (hclosing : closing ≠ '\n') {as bs : List α}
    (hf : Separates f as bs) {xs ys : List Char}
    (h : bracketed opening closing f indent as ++ xs = bracketed opening closing f indent bs ++ ys) :
    as = bs ∧ xs = ys := by
  cases as with
  | nil =>
      cases bs with
      | nil => exact ⟨rfl, List.append_cancel_left h⟩
      | cons b bs => exact absurd (List.cons.inj (List.cons.inj h).2).1 hclosing
  | cons a as =>
      cases bs with
      | nil => exact absurd (List.cons.inj (List.cons.inj h).2).1.symm hclosing
      | cons b bs =>
          -- a comma in front makes the first line one of the others
          have hlines : furtherLines f (indent + 1) (a :: as)
                ++ '\n' :: (List.replicate (2 * indent) ' ' ++ closing :: xs)
              = furtherLines f (indent + 1) (b :: bs)
                ++ '\n' :: (List.replicate (2 * indent) ' ' ++ closing :: ys) := by
            simpa [bracketed, newLine] using h
          obtain ⟨hlist, hrest⟩ := furtherLines_append_inj hf hlines
          exact ⟨hlist, (List.cons.inj (List.append_cancel_left hrest)).2⟩

/-! ## Values -/

/-- No number of the value is a binary fraction. -/
def Floatless (v : Json) : Prop :=
  ∀ x, ¬Occurs (.float x) v

/-- The items of an array without floating point numbers have none. -/
theorem Floatless.of_mem_items {items : List Json} {v : Json} (h : Floatless (.arr items))
    (hmem : v ∈ items) : Floatless v :=
  fun x hx => h x (.item hmem hx)

/-- The members of an object without floating point numbers have none. -/
theorem Floatless.of_mem_members {members : List (String × Json)} {m : String × Json}
    (h : Floatless (.obj members)) (hmem : m ∈ members) : Floatless m.2 :=
  fun x hx => h x (.member hmem hx)

/-- An item is smaller than the array. -/
theorem sizeOf_lt_arr {items : List Json} {v : Json} (h : v ∈ items) :
    sizeOf v < sizeOf (Json.arr items) := by
  have := List.sizeOf_lt_of_mem h
  rw [Json.arr.sizeOf_spec]
  omega

/-- The value of a member is smaller than the object. -/
theorem sizeOf_lt_obj {members : List (String × Json)} {m : String × Json} (h : m ∈ members) :
    sizeOf m.2 < sizeOf (Json.obj members) := by
  have hmem := List.sizeOf_lt_of_mem h
  have hpair : sizeOf m = 1 + sizeOf m.1 + sizeOf m.2 := rfl
  rw [Json.obj.sizeOf_spec]
  omega

/-- What the first character of its text tells of a value. -/
inductive Form
  | null
  | bool (b : Bool)
  | int
  | str
  | arr
  | obj
deriving DecidableEq

def form? : Json → Option Form
  | .null => some .null
  | .bool b => some (.bool b)
  | .int _ => some .int
  | .float _ => none
  | .str _ => some .str
  | .arr _ => some .arr
  | .obj _ => some .obj

def formOfChar? (c : Char) : Option Form :=
  if c = 'n' then some .null
  else if c = 't' then some (.bool true)
  else if c = 'f' then some (.bool false)
  else if c = '"' then some .str
  else if c = '[' then some .arr
  else if c = '{' then some .obj
  else if c = '-' || c.isDigit then some .int
  else none

/-- What begins with a digit is an integer. -/
theorem formOfChar?_of_isDigit {c : Char} (h : c.isDigit = true) : formOfChar? c = some .int := by
  have hne : ∀ d : Char, d.isDigit = false → c ≠ d := by
    rintro d hd rfl
    exact Bool.false_ne_true (hd.symm.trans h)
  rw [formOfChar?, if_neg (hne _ rfl), if_neg (hne _ rfl), if_neg (hne _ rfl), if_neg (hne _ rfl),
    if_neg (hne _ rfl), if_neg (hne _ rfl), h, Bool.or_true, if_pos rfl]

/-- The first character of a written value tells the form of the value. -/
theorem exists_prettyText_eq_cons (indent : Nat) {v : Json} (hv : Floatless v) :
    ∃ c cs, prettyText indent v = c :: cs ∧ formOfChar? c = v.form? := by
  cases v with
  | null => exact ⟨'n', _, rfl, rfl⟩
  | bool b => cases b <;> exact ⟨_, _, rfl, rfl⟩
  | int n =>
      obtain ⟨c, cs, hdigits, hc⟩ := exists_toDigits_eq_cons n.natAbs
      show ∃ c cs, intText n = c :: cs ∧ _
      rw [intText]
      split
      · exact ⟨'-', _, rfl, rfl⟩
      · exact ⟨c, cs, hdigits, formOfChar?_of_isDigit hc⟩
  | float x => exact absurd .here (hv x)
  | str s => exact ⟨'"', _, rfl, rfl⟩
  | arr items => cases items <;> exact ⟨'[', _, rfl, rfl⟩
  | obj members => cases members <;> exact ⟨'\x7b', _, rfl, rfl⟩

/-- Values of two forms are never written alike, whatever follows them. -/
theorem form?_eq_of_prettyText_append_eq {v w : Json} (hv : Floatless v) (hw : Floatless w)
    {xs ys : List Char} (h : prettyText indent v ++ xs = prettyText indent w ++ ys) :
    v.form? = w.form? := by
  obtain ⟨c, cs, hcs, hc⟩ := exists_prettyText_eq_cons indent hv
  obtain ⟨d, ds, hds, hd⟩ := exists_prettyText_eq_cons indent hw
  rw [hcs, hds] at h
  rw [← hc, ← hd, (List.cons.inj h).1]

/-- **Pretty text tells what it is the text of**, whatever follows that is no digit. -/
theorem prettyText_append_inj {indent : Nat} {v w : Json} (hv : Floatless v) (hw : Floatless w)
    {xs ys : List Char} (hxs : EndsNumber xs) (hys : EndsNumber ys)
    (h : prettyText indent v ++ xs = prettyText indent w ++ ys) : v = w ∧ xs = ys := by
  have hform := form?_eq_of_prettyText_append_eq hv hw h
  match v with
  | .null =>
      cases w with
      | null => exact ⟨rfl, List.append_cancel_left h⟩
      | _ => cases hform
  | .bool b =>
      cases w with
      | bool b' =>
          obtain rfl : b = b' := by simpa [form?] using hform
          exact ⟨rfl, List.append_cancel_left h⟩
      | _ => cases hform
  | .int n =>
      cases w with
      | int m =>
          obtain ⟨rfl, hrest⟩ := intText_append_inj hxs hys h
          exact ⟨rfl, hrest⟩
      | _ => cases hform
  | .float x => exact absurd .here (hv x)
  | .str s =>
      cases w with
      | str t =>
          obtain ⟨hst, hrest⟩ := quote_append_inj h
          exact ⟨congrArg Json.str (String.toList_injective hst), hrest⟩
      | _ => cases hform
  | .arr items =>
      cases w with
      | arr others =>
          rw [prettyText_arr, prettyText_arr] at h
          have hf : Separates (prettyText (indent + 1)) items others := by
            intro u hu t ht us ts hus hts
            exact prettyText_append_inj (hv.of_mem_items hu) (hw.of_mem_items ht) hus hts
          obtain ⟨rfl, hrest⟩ := bracketed_append_inj (by decide) hf h
          exact ⟨rfl, hrest⟩
      | _ => cases hform
  | .obj members =>
      cases w with
      | obj others =>
          rw [prettyText_obj, prettyText_obj] at h
          have hf : Separates (memberText (indent + 1)) members others := by
            rintro ⟨name, u⟩ hu ⟨other, t⟩ ht us ts hus hts hlines
            simp only [memberText, List.append_assoc, List.cons_append] at hlines
            obtain ⟨hname, hvalue⟩ := quote_append_inj hlines
            obtain ⟨rfl, hrest⟩ := prettyText_append_inj (hv.of_mem_members hu)
              (hw.of_mem_members ht) hus hts (List.cons.inj (List.cons.inj hvalue).2).2
            exact ⟨congrArg (·, u) (String.toList_injective hname), hrest⟩
          obtain ⟨rfl, hrest⟩ := bracketed_append_inj (by decide) hf h
          exact ⟨rfl, hrest⟩
      | _ => cases hform
termination_by v
decreasing_by
  · exact sizeOf_lt_arr hu
  · exact sizeOf_lt_obj hu

/-- Two values that are printed alike are equal. -/
theorem pretty_inj {v w : Json} (hv : Floatless v) (hw : Floatless w) (h : v.pretty = w.pretty) :
    v = w := by
  have hnil : EndsNumber [] := by
    intro c hc
    cases hc
  have htext : prettyText 0 v = prettyText 0 w := String.ofList_injective h
  exact (prettyText_append_inj hv hw hnil hnil (congrArg (· ++ []) htext)).1

end PackLint.Json
