import Mathlib

/-!
# JSON documents

JSON values as the modelled programs hold them after parsing, and the text a document is written
as. A number written as an integer is an integer; any other number is kept with the text it is
written as and, unless it is not finite, its value. The members of an object are in the order
they were written.

## Main definitions

* `Json`: documents
* `Json.member`, `Json.keys`: the members of an object
* `Json.dumps`: the text of a document, with the separators between items and after keys
* `Json.sorted`: a document with the members of its objects in the order of their keys
* `Json.Equal`: documents that are equal up to the order of members
* `utf8`: the bytes of a text
-/

namespace Ninfer

/-- A JSON document. -/
inductive Json
  | null
  | bool (value : Bool)
  | int (value : Int)
  | float (text : String) (value : Option Rat)
  | str (value : String)
  | arr (items : List Json)
  | obj (members : List (String × Json))
  deriving Repr

/-- The UTF-8 bytes of a text. -/
def utf8 (text : List Char) : List UInt8 := text.flatMap String.utf8EncodeChar

namespace Json

/-- The keys of an object. -/
def keys : Json → List String
  | obj members => members.map Prod.fst
  | _ => []

/-- Whether a document is an object. -/
def isObj : Json → Bool
  | obj _ => true
  | _ => false

/-- The member of an object with the given key, and `null` where there is none. -/
def member (value : Json) (key : String) : Json :=
  match value with
  | obj members => (members.lookup key).getD null
  | _ => null

/-- Whether the keys of an object are exactly the given ones. -/
def hasMembers (value : Json) (members : List String) : Prop :=
  (∃ fields, value = obj fields) ∧ (∀ key ∈ value.keys, key ∈ members) ∧
    ∀ key ∈ members, key ∈ value.keys

instance (value : Json) (members : List String) : Decidable (value.hasMembers members) :=
  match value with
  | obj fields =>
    if h : (∀ key ∈ (obj fields).keys, key ∈ members) ∧ ∀ key ∈ members, key ∈ (obj fields).keys
    then .isTrue ⟨⟨fields, rfl⟩, h⟩
    else .isFalse fun hm => h hm.2
  | null | bool _ | int _ | float _ _ | str _ | arr _ => .isFalse fun hm => nomatch hm.1

/-- The hexadecimal digit of a number below sixteen. -/
def hexDigit (n : Nat) : Char := "0123456789abcdef".toList.getD n '0'

/-- A character of a string, escaped where JSON asks for it. -/
def escapeChar (c : Char) : List Char :=
  match c with
  | '"' => ['\\', '"']
  | '\\' => ['\\', '\\']
  | '\n' => ['\\', 'n']
  | '\r' => ['\\', 'r']
  | '\t' => ['\\', 't']
  | c =>
    if c.toNat = 8 then ['\\', 'b']
    else if c.toNat = 12 then ['\\', 'f']
    else if c.toNat < 32 then
      ['\\', 'u', '0', '0', hexDigit (c.toNat / 16), hexDigit (c.toNat % 16)]
    else [c]

/-- The text of a string, in quotes, without escaping characters beyond ASCII. -/
def quote (value : String) : List Char :=
  '"' :: (value.toList.flatMap escapeChar ++ ['"'])

/-- The text of an integer. -/
def decimal : Int → List Char
  | .ofNat n => Nat.toDigits 10 n
  | .negSucc n => '-' :: Nat.toDigits 10 (n + 1)

mutual

/-- The text of a document, with `item` between the items of a container and `colon` after the
keys of an object. -/
def dumps (item colon : List Char) : Json → List Char
  | null => ['n', 'u', 'l', 'l']
  | bool true => ['t', 'r', 'u', 'e']
  | bool false => ['f', 'a', 'l', 's', 'e']
  | int value => decimal value
  | float text _ => text.toList
  | str value => quote value
  | arr items => '[' :: (dumpsItems item colon items ++ [']'])
  | obj members => '\x7b' :: (dumpsMembers item colon members ++ ['\x7d'])

/-- The items of an array. -/
def dumpsItems (item colon : List Char) : List Json → List Char
  | [] => []
  | [value] => dumps item colon value
  | value :: rest => dumps item colon value ++ (item ++ dumpsItems item colon rest)

/-- The members of an object. -/
def dumpsMembers (item colon : List Char) : List (String × Json) → List Char
  | [] => []
  | [(key, value)] => quote key ++ (colon ++ dumps item colon value)
  | (key, value) :: rest =>
    quote key ++ (colon ++ (dumps item colon value ++ (item ++ dumpsMembers item colon rest)))

end

/-- One more member, behind those with a smaller key. -/
def insertMember (member : String × Json) : List (String × Json) → List (String × Json)
  | [] => [member]
  | other :: members =>
    if other.1 < member.1 then other :: insertMember member members
    else member :: other :: members

mutual

/-- The document with the members of its objects in the order of their keys. -/
def sorted : Json → Json
  | arr items => arr (sortedItems items)
  | obj members => obj (sortedMembers members)
  | value => value

/-- `sorted` of the items of an array. -/
def sortedItems : List Json → List Json
  | [] => []
  | value :: rest => value.sorted :: sortedItems rest

/-- `sorted` of the members of an object. -/
def sortedMembers : List (String × Json) → List (String × Json)
  | [] => []
  | (key, value) :: rest => insertMember (key, value.sorted) (sortedMembers rest)

end

/-- Documents that are equal up to the order in which the members of objects are written. -/
def Equal (a b : Json) : Prop := a.sorted = b.sorted

theorem mem_insertMember {member other : String × Json} {members : List (String × Json)} :
    other ∈ insertMember member members ↔ other = member ∨ other ∈ members := by
  induction members with
  | nil => simp [insertMember]
  | cons first members ih =>
    unfold insertMember
    split_ifs
    · rw [List.mem_cons, ih, List.mem_cons]
      tauto
    · rw [List.mem_cons]

/-- The keys of an object do not decrease. -/
def Ordered (members : List (String × Json)) : Prop :=
  members.Pairwise fun a b => ¬b.1 < a.1

theorem ordered_insertMember (member : String × Json) {members : List (String × Json)}
    (h : Ordered members) : Ordered (insertMember member members) := by
  induction members with
  | nil => exact List.pairwise_singleton _ _
  | cons first members ih =>
    obtain ⟨hfirst, hrest⟩ := List.pairwise_cons.mp h
    unfold insertMember
    split_ifs with hlt
    · refine List.pairwise_cons.mpr ⟨fun other hm => ?_, ih hrest⟩
      rcases mem_insertMember.mp hm with rfl | hm
      · exact hlt.asymm
      · exact hfirst other hm
    · refine List.pairwise_cons.mpr ⟨fun other hm => ?_, h⟩
      rcases List.mem_cons.mp hm with rfl | hm
      · exact hlt
      · exact fun hother => hlt ((not_lt.mp (hfirst other hm)).trans_lt hother)

theorem ordered_sortedMembers : ∀ members, Ordered (sortedMembers members)
  | [] => List.Pairwise.nil
  | (key, value) :: rest => by
    unfold sortedMembers
    exact ordered_insertMember _ (ordered_sortedMembers rest)

/-- What is sorted already stays as it is. -/
theorem sortedMembers_of_ordered : ∀ {members : List (String × Json)}, Ordered members →
    (∀ member ∈ members, member.2.sorted = member.2) → sortedMembers members = members
  | [], _, _ => by unfold sortedMembers; rfl
  | (key, value) :: rest, h, hv => by
    obtain ⟨hfirst, hrest⟩ := List.pairwise_cons.mp h
    obtain ⟨hvalue, hvalues⟩ := List.forall_mem_cons.mp hv
    unfold sortedMembers
    rw [sortedMembers_of_ordered hrest hvalues, hvalue]
    cases rest with
    | nil => rfl
    | cons other rest => exact if_neg (hfirst other List.mem_cons_self)

mutual

/-- **Sorting a sorted document changes nothing.** -/
theorem sorted_sorted : ∀ value : Json, value.sorted.sorted = value.sorted
  | null => by simp only [sorted]
  | bool _ => by simp only [sorted]
  | int _ => by simp only [sorted]
  | float _ _ => by simp only [sorted]
  | str _ => by simp only [sorted]
  | arr items => by simp only [sorted, sortedItems_sortedItems items]
  | obj members => by
    simp only [sorted]
    rw [sortedMembers_of_ordered (ordered_sortedMembers members) (forall_sortedMembers members)]

theorem sortedItems_sortedItems : ∀ items, sortedItems (sortedItems items) = sortedItems items
  | [] => by simp only [sortedItems]
  | value :: rest => by
    simp only [sortedItems, sorted_sorted value, sortedItems_sortedItems rest]

theorem forall_sortedMembers : ∀ members, ∀ member ∈ sortedMembers members,
    member.2.sorted = member.2
  | [], member, hm => by
    simp only [sortedMembers] at hm
    exact nomatch hm
  | (key, value) :: rest, member, hm => by
    simp only [sortedMembers] at hm
    rcases mem_insertMember.mp hm with rfl | hm
    · exact sorted_sorted value
    · exact forall_sortedMembers rest member hm

end

theorem equal_sorted (value : Json) : Equal value.sorted value := sorted_sorted value

end Json

end Ninfer
