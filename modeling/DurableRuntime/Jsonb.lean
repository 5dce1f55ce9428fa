import DurableRuntime.Json
import Mathlib.Data.List.Sort

/-!
# Stored JSON

What a `jsonb` column gives back of a value: of several members of one name only
the last is kept, and the members of an object come in an order of their own,
shorter names first.
-/

namespace DurableRuntime.Json

open DurableRuntime.Foundation

/-- The order of the names of a stored object. -/
def nameLe (a b : String) : Bool :=
  a.utf8ByteSize < b.utf8ByteSize || (a.utf8ByteSize = b.utf8ByteSize && a ≤ b)

def lastMembers : List (String × Json) → List (String × Json)
  | [] => []
  | member :: members =>
      if members.any fun other => other.1 = member.1 then lastMembers members
      else member :: lastMembers members

def sortMembers (members : List (String × Json)) : List (String × Json) :=
  members.insertionSort fun a b => nameLe a.1 b.1

mutual

def jsonb : Json → Json
  | .arr items => .arr (jsonbItems items)
  | .obj members => .obj (sortMembers (lastMembers (jsonbMembers members)))
  | .null => .null
  | .bool value => .bool value
  | .num value => .num value
  | .str value => .str value

def jsonbItems : List Json → List Json
  | [] => []
  | item :: items => item.jsonb :: jsonbItems items

def jsonbMembers : List (String × Json) → List (String × Json)
  | [] => []
  | (name, value) :: members => (name, value.jsonb) :: jsonbMembers members

end

theorem jsonbItems_eq_map (items : List Json) : jsonbItems items = items.map jsonb := by
  induction items with
  | nil => rfl
  | cons item items ih => rw [jsonbItems, ih, List.map_cons]

theorem jsonbMembers_names (members : List (String × Json)) :
    (jsonbMembers members).map Prod.fst = members.map Prod.fst := by
  induction members with
  | nil => rfl
  | cons member members ih =>
      obtain ⟨name, value⟩ := member
      rw [jsonbMembers, List.map_cons, ih, List.map_cons]

theorem lastMembers_of_nodup {members : List (String × Json)}
    (h : (members.map Prod.fst).Nodup) : lastMembers members = members := by
  induction members with
  | nil => rfl
  | cons member members ih =>
      obtain ⟨hfresh, hnodup⟩ := List.nodup_cons.mp h
      have hnone : (members.any fun other => other.1 = member.1) = false := by
        rw [List.any_eq_false]
        intro other hother heq
        exact hfresh (of_decide_eq_true heq ▸ List.mem_map_of_mem hother)
      rw [lastMembers, hnone, ih hnodup]
      rfl

/-- An object without duplicate names keeps its members, in another order. -/
theorem jsonb_obj {members : List (String × Json)} (h : (members.map Prod.fst).Nodup) :
    ∃ stored, (Json.obj members).jsonb = .obj stored ∧ stored.Perm (jsonbMembers members) := by
  refine ⟨_, by rw [jsonb], ?_⟩
  rw [lastMembers_of_nodup (by rwa [jsonbMembers_names])]
  exact List.perm_insertionSort _ _

theorem last?_jsonbMembers (name : String) (members : List (String × Json)) :
    last? name (jsonbMembers members) = (last? name members).map jsonb := by
  induction members with
  | nil => rfl
  | cons member members ih =>
      obtain ⟨other, value⟩ := member
      rw [jsonbMembers, last?_cons, last?_cons, ih]
      cases last? name members with
      | some found => rfl
      | none => by_cases hname : other = name <;> simp [hname]

theorem last?_lastMembers (name : String) (members : List (String × Json)) :
    last? name (lastMembers members) = last? name members := by
  induction members with
  | nil => rfl
  | cons member members ih =>
      rw [lastMembers, last?_cons]
      split
      · rename_i hlater
        rw [ih]
        by_cases hname : member.1 = name
        · obtain ⟨other, hother, heq⟩ := List.any_eq_true.mp hlater
          cases hfound : last? name members with
          | some found => rfl
          | none =>
              refine absurd ?_ (last?_eq_none.mp hfound)
              exact List.mem_map.mpr ⟨other, hother, (of_decide_eq_true heq).trans hname⟩
        · simp [hname]
      · rw [last?_cons, ih]

theorem lastMembers_sublist (members : List (String × Json)) :
    (lastMembers members).Sublist members := by
  induction members with
  | nil => exact .slnil
  | cons member members ih =>
      rw [lastMembers]
      split
      · exact ih.cons _
      · exact ih.cons_cons _

theorem nodup_lastMembers (members : List (String × Json)) :
    ((lastMembers members).map Prod.fst).Nodup := by
  induction members with
  | nil => exact List.nodup_nil
  | cons member members ih =>
      rw [lastMembers]
      split
      · exact ih
      · rename_i hlast
        refine List.nodup_cons.mpr ⟨?_, ih⟩
        intro hmem
        obtain ⟨other, hother, heq⟩ := List.mem_map.mp hmem
        refine hlast (List.any_eq_true.mpr ⟨other, ?_, decide_eq_true heq⟩)
        exact (lastMembers_sublist members).subset hother

/-- Reading a member of a stored object. -/
theorem last?_stored (name : String) (members : List (String × Json)) :
    last? name (sortMembers (lastMembers (jsonbMembers members))) =
      (last? name members).map jsonb := by
  have hnodup := nodup_lastMembers (jsonbMembers members)
  rw [sortMembers, ← last?_perm hnodup (List.perm_insertionSort _ _).symm, last?_lastMembers,
    last?_jsonbMembers]

end DurableRuntime.Json

namespace DurableRuntime.PostgresDurableStore

/-! ## What can be stored -/

def nulInText : String := "invalid byte sequence for encoding \"UTF8\": 0x00"

def nulInJson : String := "unsupported Unicode escape sequence"

/-- A `text` or `jsonb` value holds no NUL character. -/
def isText (s : String) : Bool := s.toList.all fun c => c.toNat ≠ 0

mutual

def isJsonText : Json → Bool
  | .str value => isText value
  | .arr items => itemsAreText items
  | .obj members => membersAreText members
  | .null | .bool _ | .num _ => true

def itemsAreText : List Json → Bool
  | [] => true
  | item :: items => isJsonText item && itemsAreText items

def membersAreText : List (String × Json) → Bool
  | [] => true
  | (name, value) :: members => isText name && isJsonText value && membersAreText members

end

end DurableRuntime.PostgresDurableStore

namespace DurableRuntime

open Foundation
open PostgresDurableStore (isText isJsonText itemsAreText membersAreText)

/-- Neither the NUL character nor a lone surrogate. -/
def CodePoint.isStorable : CodePoint → Bool
  | scalar c => c.toNat ≠ 0
  | lone _ => false

namespace JsValue

mutual

/-- No string of the value, names included, keeps `jsonb` from storing it. -/
def isStorable : JsValue → Bool
  | .str value => value.all CodePoint.isStorable
  | .arr items => itemsAreStorable items
  | .obj members => membersAreStorable members
  | .null | .bool _ | .num _ | .negativeZero | .infinite _ => true

def itemsAreStorable : List JsValue → Bool
  | [] => true
  | item :: items => item.isStorable && itemsAreStorable items

def membersAreStorable : List (JsString × JsValue) → Bool
  | [] => true
  | (name, value) :: members =>
      name.all CodePoint.isStorable && value.isStorable && membersAreStorable members

end

theorem isText_escaped (text : JsString) :
    isText text.escaped = text.all CodePoint.isStorable := by
  simp only [isText, JsString.escaped, String.toList_ofList, List.all_map]
  refine List.all_congr rfl fun point => ?_
  cases point <;> rfl

mutual

theorem isJsonText_toJson (value : JsValue) : isJsonText value.toJson = value.isStorable := by
  cases value with
  | str value => exact isText_escaped value
  | arr items => exact itemsAreText_toJson items
  | obj members => exact membersAreText_toJson members
  | _ => rfl

theorem itemsAreText_toJson (items : List JsValue) :
    itemsAreText (itemsToJson items) = itemsAreStorable items := by
  cases items with
  | nil => rfl
  | cons item items =>
      rw [itemsToJson, itemsAreText, itemsAreStorable, isJsonText_toJson item,
        itemsAreText_toJson items]

theorem membersAreText_toJson (members : List (JsString × JsValue)) :
    membersAreText (membersToJson members) = membersAreStorable members := by
  cases members with
  | nil => rfl
  | cons member members =>
      obtain ⟨name, value⟩ := member
      rw [membersToJson, membersAreText, membersAreStorable, isText_escaped,
        isJsonText_toJson value, membersAreText_toJson members]

end

mutual

/-- No number of the value is infinite or -0, which `JSON.stringify` would not write. -/
def isFinite : JsValue → Bool
  | .arr items => itemsAreFinite items
  | .obj members => membersAreFinite members
  | .null | .bool _ | .num _ | .str _ => true
  | .negativeZero | .infinite _ => false

def itemsAreFinite : List JsValue → Bool
  | [] => true
  | item :: items => item.isFinite && itemsAreFinite items

def membersAreFinite : List (JsString × JsValue) → Bool
  | [] => true
  | (_, value) :: members => value.isFinite && membersAreFinite members

end

/-- Equal but for the order in which objects list their members. -/
inductive Same : JsValue → JsValue → Prop
  | null : Same .null .null
  | bool (value) : Same (.bool value) (.bool value)
  | num (value) : Same (.num value) (.num value)
  | negativeZero : Same .negativeZero .negativeZero
  | infinite (negative) : Same (.infinite negative) (.infinite negative)
  | str (value) : Same (.str value) (.str value)
  | arr {items others} (hitems : List.Forall₂ Same items others) : Same (.arr items) (.arr others)
  | obj {members others}
      (hmembers : ∀ name, Option.Rel Same (last? name members) (last? name others)) :
      Same (.obj members) (.obj others)

/-! ## Reading back what was stored -/

theorem escaped_ofString (text : String) : (JsString.ofString text).escaped = text := by
  have hcharacters : CodePoint.escaped ∘ CodePoint.scalar = id := rfl
  rw [JsString.escaped, JsString.ofString, List.map_map, hcharacters]
  simp

theorem ofString_escaped {text : JsString} (h : text.all CodePoint.isStorable = true) :
    JsString.ofString text.escaped = text := by
  rw [JsString.escaped, JsString.ofString, String.toList_ofList, List.map_map]
  refine (List.map_congr_left ?_).trans (List.map_id text)
  intro point hpoint
  cases point with
  | scalar c => rfl
  | lone surrogate =>
      have hstorable := List.all_eq_true.mp h _ hpoint
      cases hstorable

theorem ofString_eq_iff {text other : String} :
    JsString.ofString text = JsString.ofString other ↔ text = other := by
  refine ⟨fun heq => ?_, congrArg _⟩
  rw [← escaped_ofString text, heq, escaped_ofString]

mutual

theorem toJson_ofJson (value : Json) : (ofJson value).toJson = value := by
  cases value with
  | str value => exact congrArg Json.str (escaped_ofString value)
  | arr items => exact congrArg Json.arr (itemsToJson_ofJson items)
  | obj members => exact congrArg Json.obj (membersToJson_ofJson members)
  | _ => rfl

theorem itemsToJson_ofJson (items : List Json) : itemsToJson (itemsOfJson items) = items := by
  cases items with
  | nil => rfl
  | cons item items =>
      rw [itemsOfJson, itemsToJson, toJson_ofJson item, itemsToJson_ofJson items]

theorem membersToJson_ofJson (members : List (String × Json)) :
    membersToJson (membersOfJson members) = members := by
  cases members with
  | nil => rfl
  | cons member members =>
      obtain ⟨name, value⟩ := member
      rw [membersOfJson, membersToJson, escaped_ofString, toJson_ofJson value,
        membersToJson_ofJson members]

end

theorem last?_membersOfJson (name : String) (members : List (String × Json)) :
    last? (JsString.ofString name) (membersOfJson members) = (last? name members).map ofJson := by
  induction members with
  | nil => rfl
  | cons member members ih =>
      obtain ⟨other, value⟩ := member
      rw [membersOfJson, last?_cons, last?_cons, ih]
      cases last? name members with
      | some found => rfl
      | none => by_cases hname : other = name <;> simp [hname, ofString_eq_iff]

theorem last?_membersOfJson_none {name : JsString} (h : ∀ text, name ≠ .ofString text)
    (members : List (String × Json)) : last? name (membersOfJson members) = none := by
  induction members with
  | nil => rfl
  | cons member members ih =>
      obtain ⟨other, value⟩ := member
      rw [membersOfJson, last?_cons, ih, if_neg (Ne.symm (h other))]
      rfl

theorem last?_membersToJson {members : List (JsString × JsValue)}
    (h : membersAreStorable members = true) (name : String) :
    last? name (membersToJson members) = (last? (JsString.ofString name) members).map toJson := by
  induction members with
  | nil => rfl
  | cons member members ih =>
      obtain ⟨other, value⟩ := member
      simp only [membersAreStorable, Bool.and_eq_true] at h
      rw [membersToJson, last?_cons, last?_cons, ih h.2]
      have hname : other.escaped = name ↔ other = JsString.ofString name := by
        rw [← ofString_eq_iff, ofString_escaped h.1.1]
      cases last? (JsString.ofString name) members with
      | some found => rfl
      | none =>
          by_cases hsame : other = JsString.ofString name <;>
            simp [hname, hsame, escaped_ofString]

/-- The names of a storable object are Unicode text. -/
theorem last?_eq_none_of_storable {members : List (JsString × JsValue)}
    (h : membersAreStorable members = true) {name : JsString}
    (hname : ∀ text, name ≠ .ofString text) : last? name members = none := by
  induction members with
  | nil => rfl
  | cons member members ih =>
      obtain ⟨other, value⟩ := member
      simp only [membersAreStorable, Bool.and_eq_true] at h
      have hother : other ≠ name := by
        rintro rfl
        exact hname other.escaped (ofString_escaped h.1.1).symm
      rw [last?_cons, ih h.2, if_neg hother]
      rfl

mutual

/-- What is read back of a value differs from it in the order of members at most. -/
theorem same_stored (value : JsValue) (hstorable : value.isStorable = true)
    (hfinite : value.isFinite = true) : Same value (ofJson value.toJson.jsonb) := by
  cases value with
  | null => exact .null
  | bool value => exact .bool value
  | num value => exact .num value
  | negativeZero => cases hfinite
  | infinite negative => cases hfinite
  | str text =>
      rw [toJson, Json.jsonb, ofJson, ofString_escaped hstorable]
      exact .str text
  | arr items => exact .arr (items_stored items hstorable hfinite)
  | obj members =>
      rw [toJson, Json.jsonb, ofJson]
      refine .obj fun name => ?_
      by_cases hname : ∃ text, name = .ofString text
      · obtain ⟨text, rfl⟩ := hname
        rw [last?_membersOfJson, Json.last?_stored, last?_membersToJson hstorable]
        cases hfound : last? (JsString.ofString text) members with
        | none => exact .none
        | some value =>
            exact .some (member_stored members hstorable hfinite _ (mem_of_last? hfound))
      · rw [not_exists] at hname
        rw [last?_membersOfJson_none hname, last?_eq_none_of_storable hstorable hname]
        exact .none

theorem items_stored (items : List JsValue) (hstorable : itemsAreStorable items = true)
    (hfinite : itemsAreFinite items = true) :
    List.Forall₂ Same items (itemsOfJson (Json.jsonbItems (itemsToJson items))) := by
  cases items with
  | nil => exact .nil
  | cons item items =>
      simp only [itemsAreStorable, Bool.and_eq_true] at hstorable
      simp only [itemsAreFinite, Bool.and_eq_true] at hfinite
      exact .cons (same_stored item hstorable.1 hfinite.1)
        (items_stored items hstorable.2 hfinite.2)

theorem member_stored (members : List (JsString × JsValue))
    (hstorable : membersAreStorable members = true) (hfinite : membersAreFinite members = true) :
    ∀ member ∈ members, Same member.2 (ofJson member.2.toJson.jsonb) := by
  cases members with
  | nil => simp
  | cons member members =>
      obtain ⟨name, value⟩ := member
      simp only [membersAreStorable, Bool.and_eq_true] at hstorable
      simp only [membersAreFinite, Bool.and_eq_true] at hfinite
      intro other hother
      rcases List.mem_cons.mp hother with rfl | hrest
      · exact same_stored value hstorable.1.2 hfinite.1
      · exact member_stored members hstorable.2 hfinite.2 other hrest

end

end JsValue

end DurableRuntime
