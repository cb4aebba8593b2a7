import Mathlib.Data.UInt

/-! JSON values whose objects keep their fields in the order they were added, each key once. -/

namespace Razorback
open List

/-- A key stands for its bytes, one character per byte. A real number is `mantissa * 10 ^ exponent`. -/
inductive Json
  | null
  | boolean (value : Bool)
  | int (value : Int)
  | double (mantissa exponent : Int)
  | string (text : List UInt8)
  | array (items : List Json)
  | object (fields : List (String × Json))

namespace Json

abbrev Fields := List (String × Json)

def isContainer : Json → Bool
  | .array _ | .object _ => true
  | _ => false

mutual
def depth : Json → Nat
  | .array items => depthItems items + 1
  | .object fields => depthFields fields + 1
  | _ => 0

def depthItems : List Json → Nat
  | [] => 0
  | item :: items => max item.depth (depthItems items)

def depthFields : Fields → Nat
  | [] => 0
  | (_, value) :: fields => max value.depth (depthFields fields)
end

def keys (fields : Fields) : List String := fields.map Prod.fst

def ValidKey (key : String) : Prop := ∀ c ∈ key.toList, 0 < c.toNat ∧ c.toNat < 256

instance (key : String) : Decidable (ValidKey key) :=
  List.decidableBAll (fun c : Char => 0 < c.toNat ∧ c.toNat < 256) key.toList

mutual
/-- The values that exist: integers of 64 bits with or without sign, no key twice in an object. -/
def WellFormed : Json → Prop
  | .int value => -2 ^ 63 ≤ value ∧ value < 2 ^ 64
  | .array items => WellFormedItems items
  | .object fields => (keys fields).Nodup ∧ WellFormedFields fields
  | _ => True

def WellFormedItems : List Json → Prop
  | [] => True
  | item :: items => item.WellFormed ∧ WellFormedItems items

def WellFormedFields : Fields → Prop
  | [] => True
  | (key, value) :: fields => (ValidKey key ∧ value.WellFormed) ∧ WellFormedFields fields
end

def lookup (key : String) : Fields → Option Json
  | [] => none
  | (k, value) :: fields => if k = key then some value else lookup key fields

def nonNull : Json → Option Json
  | .null => none
  | value => some value

def get (fields : Fields) (key : String) : Option Json := (lookup key fields).bind nonNull

def getObject (fields : Fields) (key : String) : Option Fields :=
  match get fields key with
  | some (.object members) => some members
  | _ => none

def has (fields : Fields) (key : String) : Bool := (lookup key fields).isSome

/-- A new key goes to the end, the value of a present one is replaced. -/
def add (fields : Fields) (key : String) (value : Json) : Fields :=
  match fields with
  | [] => [(key, value)]
  | (k, old) :: fields => if k = key then (k, value) :: fields else (k, old) :: add fields key value

section Lookup

variable {fields : Fields} {key other : String} {value : Json}

theorem lookup_add_self : lookup key (add fields key value) = some value := by
  induction fields with
  | nil => simp [add, lookup]
  | cons field fields ih =>
    obtain ⟨k, old⟩ := field
    by_cases hk : k = key
    · simp [add, lookup, hk]
    · simp [add, lookup, hk, ih]

theorem lookup_add_of_ne (h : key ≠ other) : lookup other (add fields key value) = lookup other fields := by
  induction fields with
  | nil => simp [add, lookup, h]
  | cons field fields ih =>
    obtain ⟨k, old⟩ := field
    by_cases hk : k = key
    · simp [add, lookup, hk, h]
    · simp only [add, if_neg hk, lookup, ih]

@[simp] theorem lookup_nil : lookup key [] = none := rfl

@[simp] theorem lookup_add :
    lookup other (add fields key value) = if key = other then some value else lookup other fields := by
  by_cases h : key = other
  · rw [if_pos h, ← h, lookup_add_self]
  · rw [if_neg h, lookup_add_of_ne h]

@[simp] theorem get_nil : get [] key = none := rfl

@[simp] theorem get_add :
    get (add fields key value) other = if key = other then nonNull value else get fields other := by
  by_cases h : key = other <;> simp [get, h]

@[simp] theorem has_nil : has [] key = false := rfl

@[simp] theorem has_add : has (add fields key value) other = (decide (key = other) || has fields other) := by
  by_cases h : key = other <;> simp [has, h]

theorem getObject_of_get {members : Fields} (h : get fields key = some (.object members)) :
    getObject fields key = some members := by
  rw [getObject, h]

theorem getObject_add_self {members : Fields} :
    getObject (add fields key (.object members)) key = some members :=
  getObject_of_get (by simp [nonNull])

@[simp] theorem keys_nil : keys [] = [] := rfl

@[simp] theorem mem_keys_add : other ∈ keys (add fields key value) ↔ other = key ∨ other ∈ keys fields := by
  induction fields with
  | nil => simp [add, keys]
  | cons field fields ih =>
    obtain ⟨k, old⟩ := field
    by_cases hk : k = key
    · simp [add, keys, hk]
    · simp only [add, if_neg hk, keys, map_cons, mem_cons]
      tauto

theorem add_of_notMem (h : key ∉ keys fields) : add fields key value = fields ++ [(key, value)] := by
  induction fields with
  | nil => rfl
  | cons field fields ih =>
    simp only [keys, map_cons, mem_cons, not_or] at h
    rw [add, if_neg fun hk => h.1 hk.symm, ih h.2, cons_append]

end Lookup

section Termination

variable {fields members : Fields} {key : String} {value : Json}

theorem sizeOf_lookup_lt (h : lookup key fields = some value) : sizeOf value < sizeOf fields := by
  induction fields with
  | nil => simp at h
  | cons field fields ih =>
    obtain ⟨k, old⟩ := field
    simp only [lookup] at h
    split at h
    · obtain rfl : old = value := Option.some.inj h
      simp only [cons.sizeOf_spec, Prod.mk.sizeOf_spec]
      omega
    · have := ih h
      simp only [cons.sizeOf_spec]
      omega

theorem get_of_getObject (h : getObject fields key = some members) : get fields key = some (.object members) := by
  simp only [getObject] at h
  split at h
  · next found hfound => rw [hfound, Option.some.inj h]
  · simp at h

theorem sizeOf_getObject_lt (h : getObject fields key = some members) : sizeOf members < sizeOf fields := by
  have hget : get fields key = some (.object members) := get_of_getObject h
  obtain ⟨value, hvalue, hnull⟩ := Option.bind_eq_some_iff.mp hget
  have hobject : value = .object members := by
    cases value <;> simp_all [nonNull]
  have hlt := sizeOf_lookup_lt hvalue
  rw [hobject] at hlt
  simp only [Json.object.sizeOf_spec] at hlt
  omega

end Termination

/-! ### The objects in a value -/

mutual
def objects : Json → List Fields
  | .array items => objectsItems items
  | .object fields => fields :: objectsFields fields
  | _ => []

def objectsItems : List Json → List Fields
  | [] => []
  | item :: items => item.objects ++ objectsItems items

def objectsFields : Fields → List Fields
  | [] => []
  | (_, value) :: fields => value.objects ++ objectsFields fields
end

mutual
theorem objectsFields_subset : ∀ (value : Json) {inner : Fields}, inner ∈ value.objects → objectsFields inner ⊆ value.objects
  | .null, _, h | .boolean _, _, h | .int _, _, h | .double _ _, _, h | .string _, _, h => by simp [objects] at h
  | .array items, _, h => objectsFields_subset_items items h
  | .object fields, inner, h => by
    rcases List.mem_cons.mp h with rfl | h
    · exact List.subset_cons_self _ _
    · exact List.Subset.trans (objectsFields_subset_fields fields h) (List.subset_cons_self _ _)

theorem objectsFields_subset_items : ∀ (items : List Json) {inner : Fields}, inner ∈ objectsItems items →
    objectsFields inner ⊆ objectsItems items
  | [], _, h => by simp [objectsItems] at h
  | item :: items, inner, h => by
    rcases List.mem_append.mp h with h | h
    · exact List.Subset.trans (objectsFields_subset item h) (List.subset_append_left _ _)
    · exact List.Subset.trans (objectsFields_subset_items items h) (List.subset_append_right _ _)

theorem objectsFields_subset_fields : ∀ (fields : Fields) {inner : Fields}, inner ∈ objectsFields fields →
    objectsFields inner ⊆ objectsFields fields
  | [], _, h => by simp [objectsFields] at h
  | (_, value) :: fields, inner, h => by
    rcases List.mem_append.mp h with h | h
    · exact List.Subset.trans (objectsFields_subset value h) (List.subset_append_left _ _)
    · exact List.Subset.trans (objectsFields_subset_fields fields h) (List.subset_append_right _ _)
end

theorem objects_subset_of_lookup {fields : Fields} {key : String} {value : Json} (h : lookup key fields = some value) :
    value.objects ⊆ objectsFields fields := by
  induction fields with
  | nil => simp at h
  | cons field fields ih =>
    simp only [lookup] at h
    split at h
    · obtain rfl := Option.some.inj h
      exact subset_append_left _ _
    · exact List.Subset.trans (ih h) (subset_append_right _ _)

theorem objects_subset_of_get {fields : Fields} {key : String} {value : Json} (h : get fields key = some value) :
    value.objects ⊆ objectsFields fields := by
  obtain ⟨found, hfound, hvalue⟩ := Option.bind_eq_some_iff.mp h
  obtain rfl : found = value := by cases found <;> simp_all [nonNull]
  exact objects_subset_of_lookup hfound

theorem mem_objectsItems {items : List Json} {inner : Fields} (h : .object inner ∈ items) : inner ∈ objectsItems items := by
  induction items with
  | nil => simp at h
  | cons item items ih =>
    rcases mem_cons.mp h with rfl | h
    · exact mem_append_left _ mem_cons_self
    · exact mem_append_right _ (ih h)

theorem depthFields_append (xs ys : Fields) : depthFields (xs ++ ys) = max (depthFields xs) (depthFields ys) := by
  induction xs with
  | nil => simp [depthFields]
  | cons x xs ih =>
    simp only [cons_append, depthFields, ih, Nat.max_assoc]

theorem depthItems_append (xs ys : List Json) : depthItems (xs ++ ys) = max (depthItems xs) (depthItems ys) := by
  induction xs with
  | nil => simp [depthItems]
  | cons x xs ih => simp only [cons_append, depthItems, ih, Nat.max_assoc]

theorem wellFormedFields_append (xs ys : Fields) :
    WellFormedFields (xs ++ ys) ↔ WellFormedFields xs ∧ WellFormedFields ys := by
  induction xs with
  | nil => simp [WellFormedFields]
  | cons x xs ih =>
    simp only [cons_append, WellFormedFields, ih, and_assoc]

theorem wellFormedItems_append (xs ys : List Json) :
    WellFormedItems (xs ++ ys) ↔ WellFormedItems xs ∧ WellFormedItems ys := by
  induction xs with
  | nil => simp [WellFormedItems]
  | cons x xs ih => simp only [cons_append, WellFormedItems, ih, and_assoc]

theorem wellFormed_add {fields : Fields} {key : String} {value : Json} (h : (object fields).WellFormed)
    (hkey : ValidKey key) (hvalue : value.WellFormed) : (object (add fields key value)).WellFormed := by
  obtain ⟨hnodup, hfields⟩ := h
  induction fields with
  | nil => exact ⟨nodup_singleton key, ⟨hkey, hvalue⟩, trivial⟩
  | cons field fields ih =>
    obtain ⟨k, old⟩ := field
    have hk : k ∉ keys fields ∧ (keys fields).Nodup := nodup_cons.mp hnodup
    by_cases heq : k = key
    · rw [add, if_pos heq]
      exact ⟨hnodup, ⟨hfields.1.1, hvalue⟩, hfields.2⟩
    · obtain ⟨hrest, hwell⟩ := ih hk.2 hfields.2
      have hnew : k ∉ keys (add fields key value) := by
        rw [mem_keys_add]
        exact not_or.mpr ⟨heq, hk.1⟩
      rw [add, if_neg heq]
      exact ⟨nodup_cons.mpr ⟨hnew, hrest⟩, hfields.1, hwell⟩

structure Shape (value : Json) (n : Nat) : Prop where
  wellFormed : value.WellFormed
  depth_eq : value.depth = n

structure FieldsShape (fields : Fields) (n : Nat) : Prop where
  nodup : (keys fields).Nodup
  wellFormed : WellFormedFields fields
  depth_eq : depthFields fields = n

namespace FieldsShape

variable {fields : Fields} {key : String} {value : Json} {m n : Nat}

theorem nil : FieldsShape [] 0 := ⟨nodup_nil, trivial, rfl⟩

theorem object (h : FieldsShape fields n) : Shape (.object fields) (n + 1) :=
  ⟨⟨h.nodup, h.wellFormed⟩, congrArg (· + 1) h.depth_eq⟩

theorem add (h : FieldsShape fields n) (hkey : key ∉ keys fields ∧ ValidKey key) (hvalue : Shape value m) :
    FieldsShape (Json.add fields key value) (max n m) := by
  rw [add_of_notMem hkey.1]
  refine ⟨?_, ?_, ?_⟩
  · have hkeys : keys (fields ++ [(key, value)]) = keys fields ++ [key] := by simp [keys]
    rw [hkeys]
    exact .append h.nodup (nodup_singleton key) (by simpa using hkey.1)
  · rw [wellFormedFields_append]
    exact ⟨h.wellFormed, ⟨hkey.2, hvalue.wellFormed⟩, trivial⟩
  · rw [depthFields_append, h.depth_eq]
    simp [depthFields, hvalue.depth_eq]

end FieldsShape

structure FieldsWithin (fields : Fields) (n : Nat) : Prop where
  wellFormed : (object fields).WellFormed
  depth_le : depthFields fields ≤ n

namespace FieldsWithin

variable {fields : Fields} {key : String} {value : Json} {n : Nat}

theorem nil : FieldsWithin [] n := ⟨⟨nodup_nil, trivial⟩, Nat.zero_le n⟩

theorem depthFields_add_le : depthFields (Json.add fields key value) ≤ max (depthFields fields) value.depth := by
  induction fields with
  | nil => simp [Json.add, depthFields]
  | cons field fields ih =>
    rw [Json.add]
    split <;> simp only [depthFields] <;> omega

theorem add (h : FieldsWithin fields n) (hkey : ValidKey key) (hvalue : value.WellFormed) (hdepth : value.depth ≤ n) :
    FieldsWithin (Json.add fields key value) n :=
  ⟨wellFormed_add h.wellFormed hkey hvalue, depthFields_add_le.trans (max_le h.depth_le hdepth)⟩

theorem object_depth_le (h : FieldsWithin fields n) : (object fields).depth ≤ n + 1 := Nat.succ_le_succ h.depth_le

end FieldsWithin

theorem wellFormed_array {items : List Json} (h : ∀ item ∈ items, item.WellFormed) : (array items).WellFormed := by
  induction items with
  | nil => trivial
  | cons item items ih =>
    exact ⟨h item mem_cons_self, ih fun other hother => h other (mem_cons_of_mem item hother)⟩

theorem depth_array_le {items : List Json} {n : Nat} (h : ∀ item ∈ items, item.depth ≤ n) :
    (array items).depth ≤ n + 1 := by
  apply Nat.succ_le_succ
  induction items with
  | nil => exact Nat.zero_le n
  | cons item items ih =>
    exact max_le (h item mem_cons_self) (ih fun other hother => h other (mem_cons_of_mem item hother))

end Json

end Razorback
