import PackLint.Json.Basic
import PackLint.Json.Pointer
import PackLint.Proofs.Text.Path

/-! # Where JSON pointers lead

    A pointer is a sequence of keys, each behind a slash and with its tildes and slashes
    escaped.  To follow it, it is cut at its slashes, the keys are unescaped, and each
    key leads from a value into one inside of it.  A pointer that was put together key
    by key is followed key by key, and the keys can be read off it. -/

namespace PackLint.Json.Pointer

open Text

/-! ## Escapes -/

/-- The text with a character in the place of every tilde that has this digit behind
    it. -/
def unescapeAs (digit char : Char) : List Char → List Char
  | [] => []
  | '~' :: c :: cs =>
      if c = digit then char :: unescapeAs digit char cs
      else '~' :: unescapeAs digit char (c :: cs)
  | c :: cs => c :: unescapeAs digit char cs

/-- The key that is written so in a pointer: first `~1` becomes a slash, and then `~0`
    a tilde. -/
def unescape (cs : List Char) : List Char :=
  unescapeAs '0' '~' (unescapeAs '1' '/' cs)

/-- A character that is no tilde begins no escape. -/
theorem unescapeAs_cons {c : Char} (hc : c ≠ '~') (digit char : Char) (cs : List Char) :
    unescapeAs digit char (c :: cs) = c :: unescapeAs digit char cs := by
  rw [unescapeAs]
  intro d ds htilde
  exact absurd htilde hc

theorem replaceChar_cons_self (c : Char) (replacement cs : List Char) :
    replaceChar c replacement (c :: cs) = replacement ++ replaceChar c replacement cs := by
  rw [replaceChar, replaceChar, List.flatMap_cons, if_pos rfl]

theorem replaceChar_cons_of_ne {c d : Char} (h : d ≠ c) (replacement cs : List Char) :
    replaceChar c replacement (d :: cs) = d :: replaceChar c replacement cs := by
  rw [replaceChar, replaceChar, List.flatMap_cons, if_neg h, List.singleton_append]

/-- A tilde is written `~0`: what the slashes are replaced by is not met here. -/
theorem escape_tilde (cs : List Char) : escape ('~' :: cs) = '~' :: '0' :: escape cs := by
  rw [escape, escape, replaceChar_cons_self, List.cons_append, List.singleton_append,
    replaceChar_cons_of_ne (by decide), replaceChar_cons_of_ne (by decide)]

/-- A slash is written `~1`, and the tilde in it is not escaped again. -/
theorem escape_slash (cs : List Char) : escape ('/' :: cs) = '~' :: '1' :: escape cs := by
  rw [escape, escape, replaceChar_cons_of_ne (by decide), replaceChar_cons_self,
    List.cons_append, List.singleton_append]

/-- Any other character stands for itself. -/
theorem escape_cons {c : Char} (htilde : c ≠ '~') (hslash : c ≠ '/') (cs : List Char) :
    escape (c :: cs) = c :: escape cs := by
  rw [escape, escape, replaceChar_cons_of_ne htilde, replaceChar_cons_of_ne hslash]

/-- To unescape the slashes undoes the second replacement. -/
theorem unescapeAs_slash_escape (cs : List Char) :
    unescapeAs '1' '/' (escape cs) = replaceChar '~' ['~', '0'] cs := by
  induction cs with
  | nil => rfl
  | cons c cs ih =>
      by_cases htilde : c = '~'
      · subst htilde
        rw [escape_tilde, replaceChar_cons_self, ← ih]
        show '~' :: unescapeAs '1' '/' ('0' :: escape cs) = _
        rw [unescapeAs_cons (by decide)]
        rfl
      · by_cases hslash : c = '/'
        · subst hslash
          rw [escape_slash, replaceChar_cons_of_ne htilde, ← ih]
          rfl
        · rw [escape_cons htilde hslash, unescapeAs_cons htilde, ih,
            replaceChar_cons_of_ne htilde]

/-- To unescape the tildes undoes the first replacement. -/
theorem unescapeAs_tilde_replaceChar (cs : List Char) :
    unescapeAs '0' '~' (replaceChar '~' ['~', '0'] cs) = cs := by
  induction cs with
  | nil => rfl
  | cons c cs ih =>
      by_cases htilde : c = '~'
      · subst htilde
        rw [replaceChar_cons_self]
        exact congrArg ('~' :: ·) ih
      · rw [replaceChar_cons_of_ne htilde, unescapeAs_cons htilde, ih]

/-- Unescaping undoes escaping. -/
theorem unescape_escape (cs : List Char) : unescape (escape cs) = cs := by
  rw [unescape, unescapeAs_slash_escape, unescapeAs_tilde_replaceChar]

/-- What is escaped can stand between slashes. -/
theorem slash_notMem_escape (cs : List Char) : '/' ∉ escape cs := by
  intro hmem
  obtain ⟨c, -, hc⟩ := List.mem_flatMap.mp hmem
  by_cases hslash : c = '/'
  · rw [if_pos hslash] at hc
    exact absurd hc (by decide)
  · rw [if_neg hslash, List.mem_singleton] at hc
    exact hslash hc.symm

/-! ## Following a pointer -/

/-- The value to which a key leads from a value: to the member with this name, or to
    the item of which this is the index in decimal. -/
def child? (key : List Char) : Json → Option Json
  | .obj members => members.lookup (String.ofList key)
  | .arr items =>
      ((List.range items.length).find? fun i => Nat.toDigits 10 i == key).bind (items[·]?)
  | _ => none

/-- The value to which a pointer leads from a value. -/
def resolve? (pointer : String) (v : Json) : Option Json :=
  match pointer.toList with
  | [] => some v
  | c :: cs =>
      if c = '/' then (pathPieces cs).foldlM (fun v piece => child? (unescape piece) v) v
      else none

@[simp] theorem resolve?_empty (v : Json) : resolve? "" v = some v := rfl

/-- A pointer goes on with a slash and the escaped key. -/
theorem toList_join (pointer key : String) :
    (join pointer key).toList = pointer.toList ++ '/' :: escape key.toList := by
  simp only [join, String.toList_append, String.toList_ofList, List.append_assoc]
  rfl

/-- One more key leads one step further. -/
theorem resolve?_join (pointer key : String) (v : Json) :
    resolve? (join pointer key) v = (resolve? pointer v).bind (child? key.toList) := by
  have hpiece := pathPieces_of_notMem (slash_notMem_escape key.toList)
  simp only [resolve?, toList_join]
  cases pointer.toList with
  | nil =>
      simp only [List.nil_append, if_true, hpiece, List.foldlM_cons, List.foldlM_nil,
        unescape_escape, Option.bind_some]
      exact bind_pure _
  | cons c cs =>
      by_cases hc : c = '/'
      · simp only [List.cons_append, if_pos hc, pathPieces_append_slash, hpiece,
          List.foldlM_append, List.foldlM_cons, List.foldlM_nil, unescape_escape, bind_pure]
        rfl
      · simp only [List.cons_append, if_neg hc, Option.bind_none]

/-- A key leads from an object to the member with this name. -/
theorem child?_of_object?_eq_some {content v : Json} {key : String}
    (h : content.object? key = some v) : child? key.toList content = some v := by
  obtain ⟨hmember, _⟩ := Option.filter_eq_some_iff.mp h
  cases content with
  | obj members =>
      rw [child?, String.ofList_toList]
      exact hmember
  | _ => exact nomatch hmember

/-- An escaped slash does not end a key, and an escaped tilde opens no escape. -/
example : (resolve? (join (join "" "a/b") "~1")
    (.obj [("a/b", .obj [("~1", .arr [.null])])])).isSome = true := by
  decide +kernel

/-! ## Pointers put together from keys -/

/-- The pointer that is put together from these keys, one behind the other. -/
def ofKeys (keys : List String) : String :=
  keys.foldl join ""

/-- The keys of a pointer: what stands behind each of its slashes, unescaped. -/
def keys (pointer : String) : List String :=
  ((pathPieces pointer.toList).drop 1).map fun piece => String.ofList (unescape piece)

/-- These keys lead from a value to this one: each is the name of a member of the object that
    the keys in front of it lead to. -/
inductive LeadsTo (u : Json) : List String → Json → Prop
  | here : LeadsTo u [] u
  | member {members : List (String × Json)} {key : String} {rest : List String} {v : Json}
      (hmember : members.lookup key = some v) (h : LeadsTo u rest v) :
      LeadsTo u (key :: rest) (.obj members)

@[simp] theorem keys_empty : keys "" = [] := rfl

/-- One more key is one more key at the end. -/
theorem keys_join (pointer key : String) : keys (join pointer key) = keys pointer ++ [key] := by
  have hpiece := pathPieces_of_notMem (slash_notMem_escape key.toList)
  have hlength : 1 ≤ (pathPieces pointer.toList).length :=
    List.length_pos_of_ne_nil (pathPieces_ne_nil _)
  rw [keys, toList_join, pathPieces_append_slash, hpiece, List.drop_append_of_le_length hlength,
    List.map_append, List.map_singleton, unescape_escape, String.ofList_toList]
  rfl

/-- The keys that a pointer goes on with stand behind those that it has. -/
theorem keys_foldl_join (ks : List String) (pointer : String) :
    keys (ks.foldl join pointer) = keys pointer ++ ks := by
  induction ks generalizing pointer with
  | nil => exact (List.append_nil _).symm
  | cons key ks ih => rw [List.foldl_cons, ih, keys_join, List.append_assoc, List.singleton_append]

/-- The keys are read back. -/
theorem keys_ofKeys (ks : List String) : keys (ofKeys ks) = ks := by
  rw [ofKeys, keys_foldl_join, keys_empty, List.nil_append]

/-- Where a pointer leads to a value, the pointer with some more keys leads on from there. -/
theorem resolve?_foldl_join_of_leadsTo {ks : List String} {pointer : String} {root v u : Json}
    (hpointer : resolve? pointer root = some v) (h : LeadsTo u ks v) :
    resolve? (ks.foldl join pointer) root = some u := by
  induction h generalizing pointer with
  | here => exact hpointer
  | @member members key rest v hmember h ih =>
      refine ih ?_
      rw [resolve?_join, hpointer, Option.bind_some, child?, String.ofList_toList]
      exact hmember

/-- **A pointer that is put together key by key leads where its keys lead.**  If some keys,
    whatever their characters, lead from a value through objects to a node, the pointer of
    these keys leads from the value to this node.  No two lists of keys have the same
    pointer: the keys are what stands behind its slashes, unescaped. -/
theorem ofKeys_leads_and_keys :
    (∀ (ks : List String) (v u : Json), LeadsTo u ks v → resolve? (ofKeys ks) v = some u)
      ∧ (∀ ks : List String, keys (ofKeys ks) = ks)
      ∧ Function.Injective ofKeys := by
  refine ⟨?_, keys_ofKeys, ?_⟩
  · intro ks v u h
    exact resolve?_foldl_join_of_leadsTo (resolve?_empty v) h
  · intro ks ls h
    rw [← keys_ofKeys ks, h, keys_ofKeys]

/-- The keys are a tilde with a digit, nothing, and what another key is escaped as. -/
theorem ofKeys_leads_and_keys_tildes :
    let v : Json := .obj [("~1", .obj [("", .obj [("~01", .bool true), ("/", .bool false)])])]
    LeadsTo (.bool true) ["~1", "", "~01"] v
      ∧ ofKeys ["~1", "", "~01"] = "/~01//~001"
      ∧ resolve? "/~01//~001" v = some (.bool true)
      ∧ keys "/~01//~001" = ["~1", "", "~01"] := by
  intro v
  have hleads : LeadsTo (.bool true) ["~1", "", "~01"] v :=
    .member rfl (.member rfl (.member rfl .here))
  have hpointer : ofKeys ["~1", "", "~01"] = "/~01//~001" := by
    decide +kernel
  obtain ⟨hresolve, hkeys, -⟩ := ofKeys_leads_and_keys
  refine ⟨hleads, hpointer, ?_, ?_⟩
  · rw [← hpointer]
    exact hresolve _ v _ hleads
  · rw [← hpointer]
    exact hkeys _

end PackLint.Json.Pointer
