/-
  Holdfast.Base.Json — JSON values, and records and maps as they are written in them.

  A record is an object that has a field for each of its members; a member may be left out
  when it is none or empty, and has a default then. Fields that are not asked for are
  passed over, one that is there twice is an error. An array of the first members' values
  is read as a record too. A map is an object with a field for each entry, in the order of
  the keys.

  How a value is written as text is not part of this.

  - `required_named`, `defaulted_skipNone` and the like: what a member is read as, from the
    fields that have its name.
  - `mapM_inverse`, `toMap_ofMap`: a list and a map are read back, where their elements are.
-/

import Mathlib.Tactic

namespace Holdfast.Base

inductive Json where
  | null
  | bool (b : Bool)
  | int (n : Int)
  /-- A number that is no integer, as it is written. -/
  | float (text : String)
  | str (s : String)
  | arr (items : List Json)
  | obj (fields : List (String × Json))

/-- A map in the order of its keys; two with the same entries are the same. -/
abbrev BTreeMap (V : Type) := Std.ExtTreeMap String V compare

theorem BTreeMap.getElem?_insert {V : Type} (m : BTreeMap V) (k a : String) (v : V) :
    (m.insert k v)[a]? = if k = a then some v else m[a]? := by
  rw [Std.ExtTreeMap.getElem?_insert]
  simp

theorem BTreeMap.getElem?_erase {V : Type} (m : BTreeMap V) (k a : String) :
    (m.erase k)[a]? = if k = a then none else m[a]? := by
  rw [Std.ExtTreeMap.getElem?_erase]
  simp

theorem BTreeMap.getElem?_modify {V : Type} (m : BTreeMap V) (k a : String) (f : V → V) :
    (m.modify k f)[a]? = if k = a then m[a]?.map f else m[a]? := by
  rw [Std.ExtTreeMap.getElem?_modify]
  by_cases h : k = a
  · simp [h]
  · simp [h]

/-- Changing every value and then again. -/
theorem BTreeMap.map_map {V : Type} (m : BTreeMap V) (f g h : String → V → V) (heq : ∀ k v, g k (f k v) = h k v) :
    (m.map f).map g = m.map h := by
  apply Std.ExtTreeMap.ext_getElem?
  intro k
  simp only [Std.ExtTreeMap.getElem?_map, Option.map_map, Function.comp_def, heq]

theorem BTreeMap.ofList_toList {V : Type} (m : BTreeMap V) : Std.ExtTreeMap.ofList m.toList compare = m := by
  apply Std.ExtTreeMap.ext_getElem?
  intro k
  cases h : m[k]? with
  | some v =>
    exact Std.ExtTreeMap.getElem?_ofList_of_mem Std.ReflCmp.compare_self m.distinct_keys_toList
      (Std.ExtTreeMap.mem_toList_iff_getElem?_eq_some.mpr h)
  | none =>
    apply Std.ExtTreeMap.getElem?_ofList_of_contains_eq_false
    by_contra hc
    have hmem : k ∈ m.toList.map (·.1) := by simpa using hc
    obtain ⟨⟨k', v⟩, hv, rfl⟩ := List.mem_map.mp hmem
    rw [Std.ExtTreeMap.mem_toList_iff_getElem?_eq_some.mp hv] at h
    cases h

namespace Json

abbrev Fields := List (String × Json)

/-! ## Reading -/

section

variable {α : Type}

def string : Json → Option String
  | .str s => some s
  | _ => none

def boolean : Json → Option Bool
  | .bool b => some b
  | _ => none

/-- The fields of a record whose members are `names`, in their order. -/
def record (names : List String) : Json → Option Fields
  | .obj fields => some fields
  | .arr items => if items.length ≤ names.length then some (names.zip items) else none
  | _ => none

/-- What the field holds, if it is there; it may not be there twice. -/
def find (fields : Fields) (name : String) : Option (Option Json) :=
  match fields.filter fun f => f.1 == name with
  | [] => some none
  | [f] => some (some f.2)
  | _ => none

def required (fields : Fields) (name : String) (read : Json → Option α) : Option α :=
  (find fields name).bind fun value => value.bind read

def defaulted (fields : Fields) (name : String) (default : α) (read : Json → Option α) : Option α :=
  (find fields name).bind fun value => match value with
    | none => some default
    | some j => read j

/-- A member that may be none, and is when the field is null. -/
def nullable (read : Json → Option α) : Json → Option (Option α)
  | .null => some none
  | j => (read j).map some

def toArray (read : Json → Option α) : Json → Option (List α)
  | .arr items => items.mapM read
  | _ => none

def toMap (read : Json → Option α) : Json → Option (BTreeMap α)
  | .obj fields => (fields.mapM fun f => (read f.2).map (f.1, ·)).map (Std.ExtTreeMap.ofList · compare)
  | _ => none

/-! ## Writing -/

def skipNone (name : String) (write : α → Json) : Option α → Fields
  | none => []
  | some a => [(name, write a)]

def skipEmpty (name : String) (write : α → Json) (items : List α) : Fields :=
  if items.isEmpty then [] else [(name, .arr (items.map write))]

/-- `write` may fail. -/
def ofMap (write : α → Option Json) (m : BTreeMap α) : Option Json :=
  (m.toList.mapM fun e => (write e.2).map (e.1, ·)).map .obj

/-! ## Back again -/

/-- The fields of one name. -/
def named (name : String) (fields : Fields) : Fields := fields.filter fun f => f.1 == name

@[simp] theorem named_nil (name : String) : named name [] = [] := rfl

@[simp] theorem named_append (name : String) (a b : Fields) : named name (a ++ b) = named name a ++ named name b :=
  List.filter_append ..

@[simp] theorem named_cons (name : String) (f : String × Json) (fields : Fields) :
    named name (f :: fields) = if f.1 = name then f :: named name fields else named name fields := by
  simp [named, List.filter_cons]

@[simp] theorem named_skipNone (name name' : String) (write : α → Json) (a : Option α) :
    named name (skipNone name' write a) = if name' = name then skipNone name' write a else [] := by
  cases a <;> simp [skipNone]

@[simp] theorem named_skipEmpty (name name' : String) (write : α → Json) (items : List α) :
    named name (skipEmpty name' write items) = if name' = name then skipEmpty name' write items else [] := by
  unfold skipEmpty
  split <;> simp

theorem required_named {fields : Fields} {name : String} {j : Json} (h : named name fields = [(name, j)])
    (read : Json → Option α) :
    required fields name read = read j := by
  unfold named at h
  rw [required, find, h]
  rfl

theorem defaulted_named {fields : Fields} {name : String} {j : Json} (h : named name fields = [(name, j)]) (default : α)
    (read : Json → Option α) : defaulted fields name default read = read j := by
  unfold named at h
  rw [defaulted, find, h]
  rfl

theorem defaulted_skipNone {fields : Fields} {name : String} {w : α → Json} {a : Option α}
    (h : named name fields = skipNone name w a) {β : Type} {b : Option β} {read : Json → Option β}
    (hnone : a = none → b = none) (hsome : ∀ v, a = some v → nullable read (w v) = some b) :
    defaulted fields name none (nullable read) = some b := by
  cases a with
  | none =>
    unfold named skipNone at h
    rw [defaulted, find, h, hnone rfl]
    rfl
  | some v =>
    rw [defaulted_named h]
    exact hsome v rfl

theorem mapM_inverse {β γ : Type} {f : β → Option γ} {g : γ → Option β} (h : ∀ b c, f b = some c → g c = some b)
    {bs : List β} {cs : List γ}
    (hcs : bs.mapM f = some cs) : cs.mapM g = some bs := by
  induction bs generalizing cs with
  | nil =>
    obtain rfl : [] = cs := by simpa using hcs
    rfl
  | cons b bs ih =>
    rw [List.mapM_cons] at hcs
    simp only [Option.bind_eq_bind, Option.bind_eq_some_iff, Option.pure_def, Option.some.injEq] at hcs
    obtain ⟨c, hc, cs', hcs', rfl⟩ := hcs
    rw [List.mapM_cons, h b c hc, ih hcs']
    rfl

theorem toMap_ofMap {write : α → Option Json} (read : Json → Option α) (h : ∀ a j, write a = some j → read j = some a)
    {m : BTreeMap α} {j : Json} (hj : ofMap write m = some j) : toMap read j = some m := by
  obtain ⟨fields, hfields, rfl⟩ := Option.map_eq_some_iff.mp hj
  have hback := mapM_inverse (g := fun f : String × Json => (read f.2).map (f.1, ·)) (fun e f hf => by
    obtain ⟨j, hj, rfl⟩ := Option.map_eq_some_iff.mp hf
    simp [h e.2 j hj]) hfields
  rw [toMap, hback, Option.map_some, BTreeMap.ofList_toList]

theorem toArray_map {write : α → Json} {read : Json → Option α} (h : ∀ a, read (write a) = some a) (items : List α) :
    toArray read (.arr (items.map write)) = some items := by
  have hmap : items.mapM (fun a => some (write a)) = some (items.map write) := by
    induction items with
    | nil => rfl
    | cons a items ih => rw [List.mapM_cons, ih]; rfl
  exact mapM_inverse (fun a j hj => by cases hj; exact h a) hmap

theorem defaulted_skipEmpty {fields : Fields} {name : String} {w : α → Json} {l : List α}
    (h : named name fields = skipEmpty name w l) {read : Json → Option α} (hread : ∀ a, read (w a) = some a) :
    defaulted fields name [] (toArray read) = some l := by
  by_cases hempty : l.isEmpty = true
  · rw [skipEmpty, if_pos hempty] at h
    unfold named at h
    rw [defaulted, find, h, List.isEmpty_iff.mp hempty]
    rfl
  · rw [skipEmpty, if_neg hempty] at h
    rw [defaulted_named h]
    exact toArray_map hread l

end

end Json

end Holdfast.Base
