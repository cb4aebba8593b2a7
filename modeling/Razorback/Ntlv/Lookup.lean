import Razorback.Ntlv.Defs

/-! What `NTLVList_Get` finds. The key comparator takes an item for its name alone, so the first item of the name is
handed out whatever its type is. -/

namespace Razorback.Ntlv
open Records Text Uuids List
open JsonBuffer (ntlvListAdd)

def Named (name type : Uuid) (item : NTLVItem) : Prop := item.uuidName = name ∧ item.uuidType = type

instance (name type : Uuid) (item : NTLVItem) : Decidable (Named name type item) := instDecidableAnd

section Find

variable {name type : Uuid} {list : List NTLVItem} {item : NTLVItem}

theorem ntlvKeyCmp_iff : ntlvKeyCmp name type item ↔ item.uuidName = name ∨ item.uuidName = type := by
  rw [ntlvKeyCmp, Bool.or_eq_true, decide_eq_true_iff, decide_eq_true_iff, eq_comm, @eq_comm _ type]

theorem Named.keyCmp (h : Named name type item) : ntlvKeyCmp name type item :=
  ntlvKeyCmp_iff.mpr (.inl h.1)

/-- The search by the comparator and the search by name and type agree exactly where the first item that the comparator
takes has the name and the type. -/
theorem find_keyCmp_iff : Lists.find (ntlvKeyCmp name type) list = list.find? (Named name type ·) ↔
    ∀ item, list.find? (ntlvKeyCmp name type) = some item → Named name type item := by
  rw [Lists.find_eq]
  constructor
  · intro h item hitem
    rw [h] at hitem
    simpa using find?_some hitem
  · intro h
    induction list with
    | nil => rfl
    | cons x xs ih =>
      rw [find?_cons] at h ⊢
      cases hx : ntlvKeyCmp name type x with
      | true =>
        rw [hx] at h
        have hnamed := h x rfl
        rw [find?_cons_of_pos (by simpa using hnamed)]
      | false =>
        rw [hx] at h
        have hnot : ¬Named name type x := fun hn => by rw [hn.keyCmp] at hx; cases hx
        rw [find?_cons_of_neg (by simpa using hnot)]
        exact ih h

def Unnamed (name type : Uuid) (list : List NTLVItem) : Prop :=
  ∀ item ∈ list, item.uuidName ≠ name ∧ item.uuidName ≠ type

theorem ntlvListGet_first (h : Unnamed name type list) (data : Bytes) (later : List NTLVItem) :
    ntlvListGet (list ++ ⟨name, type, data⟩ :: later) name type = some (data.length, data) := by
  have hnone : list.find? (ntlvKeyCmp name type) = none := by
    rw [find?_eq_none]
    intro item hitem hkey
    rcases ntlvKeyCmp_iff.mp hkey with hname | htype
    · exact (h item hitem).1 hname
    · exact (h item hitem).2 htype
  have hfirst : ntlvKeyCmp name type ⟨name, type, data⟩ := Named.keyCmp ⟨rfl, rfl⟩
  rw [ntlvListGet, Lists.find_eq, find?_append, hnone, Option.none_or, find?_cons_of_pos hfirst,
    Option.map_some]

end Find

/-! ### The getters of addresses and ports -/

inductive Side
  | source | destination
  deriving DecidableEq, Repr

def Side.sName : Side → String
  | .source => "SOURCE"
  | .destination => "DEST"

section Sides

variable (registry : Registry)

def addIPv4 : Side → List NTLVItem → Address 4 → Option (List NTLVItem)
  | .source => metadataAddIPv4Source registry
  | .destination => metadataAddIPv4Destination registry

def getIPv4 : Side → List NTLVItem → Option Bytes
  | .source => metadataGetIPv4Source registry
  | .destination => metadataGetIPv4Destination registry

def addIPv6 : Side → List NTLVItem → Address 16 → Option (List NTLVItem)
  | .source => metadataAddIPv6Source registry
  | .destination => metadataAddIPv6Destination registry

def getIPv6 : Side → List NTLVItem → Option Bytes
  | .source => metadataGetIPv6Source registry
  | .destination => metadataGetIPv6Destination registry

def addPort : Side → List NTLVItem → UInt16 → Option (List NTLVItem)
  | .source => metadataAddPortSource registry
  | .destination => metadataAddPortDestination registry

def getPort : Side → List NTLVItem → Option UInt16
  | .source => metadataGetPortSource registry
  | .destination => metadataGetPortDestination registry

end Sides

section Getters

variable {registry : Registry} {name type : Uuid} {list : List NTLVItem}

theorem lookup_of_some {β : Type} {sName : String} {kind : UuidType} {uuid : Uuid} (f : Uuid → Option β)
    (h : getUUID registry sName kind = some uuid) : lookup registry sName kind f = f uuid := by
  rw [lookup, h, Option.bind_some]

theorem addOfType_of_some (htype : getUUID registry typeName .ntlvType = some type)
    (list : List NTLVItem) (name : Uuid) (hdata : data ≠ []) : addOfType registry typeName list name data = some (list ++ [⟨name, type, data⟩]) := by
  rw [addOfType, lookup_of_some _ htype, metadataAdd, ntlvListAdd, if_neg hdata]

theorem getOfType_first (htype : getUUID registry typeName .ntlvType = some type)
    (h : Unnamed name type list) (data : Bytes) (later : List NTLVItem) :
    getOfType registry typeName (list ++ [⟨name, type, data⟩] ++ later) name = some (data.length, data) := by
  rw [getOfType, lookup_of_some _ htype, metadataGet, append_assoc, singleton_append,
    ntlvListGet_first h data later]

theorem Address.ne_nil (hsize : size ≠ 0) (addr : Address size) : addr.1 ≠ [] := by
  intro hnil
  have hlen := addr.2
  rw [hnil] at hlen
  exact hsize hlen.symm

theorem readPort_portBytes (port : UInt16) : readPort (portBytes port) = some port := by
  have hport : port.toNat < 65536 := port.toNat_lt
  have hlow : (UInt8.ofNat (port.toNat % 256)).toNat = port.toNat % 256 :=
    Nat.mod_eq_of_lt (by omega)
  have hhigh : (UInt8.ofNat (port.toNat / 256)).toNat = port.toNat / 256 :=
    Nat.mod_eq_of_lt (by omega)
  rw [portBytes, readPort, hlow, hhigh, Nat.mod_add_div, UInt16.ofNat_toNat]

theorem address_added (hname : getUUID registry sName .ntlvName = some name)
    (htype : getUUID registry typeName .ntlvType = some type) (h : Unnamed name type list) (hsize : size ≠ 0)
    (addr : Address size) :
    ∃ added, lookup registry sName .ntlvName (addOfType registry typeName list · addr.1) = some added ∧
      ∀ later, lookup registry sName .ntlvName (fun name => (getOfType registry typeName (added ++ later) name).map Prod.snd)
        = some addr.1 := by
  refine ⟨list ++ [⟨name, type, addr.1⟩], ?_, fun later => ?_⟩
  · exact (lookup_of_some _ hname).trans (addOfType_of_some htype list name (addr.ne_nil hsize))
  · rw [lookup_of_some _ hname, getOfType_first htype h addr.1 later, Option.map_some]

theorem getPort_added (hname : getUUID registry side.sName .ntlvName = some name)
    (htype : getUUID registry "PORT" .ntlvType = some type) (h : Unnamed name type list) (port : UInt16) :
    ∃ added, addPort registry side list port = some added ∧
      ∀ later, getPort registry side (added ++ later) = some port := by
  have hadd := addOfType_of_some htype list name (show portBytes port ≠ [] by simp [portBytes])
  refine ⟨list ++ [⟨name, type, portBytes port⟩], ?_, fun later => ?_⟩
  · cases side <;> exact (lookup_of_some _ hname).trans hadd
  · have hget : metadataGetPort registry (list ++ [⟨name, type, portBytes port⟩] ++ later) name = some port := by
      rw [metadataGetPort, getOfType_first htype h (portBytes port) later]
      exact readPort_portBytes port
    cases side <;> exact (lookup_of_some _ hname).trans hget

end Getters

def addressRegistry : Registry
  | .ntlvName => [⟨1, "SOURCE", none⟩, ⟨2, "DEST", none⟩]
  | .ntlvType => [⟨3, "IPv4_ADDR", none⟩, ⟨4, "IPv6_ADDR", none⟩, ⟨5, "PORT", none⟩]
  | _ => []

end Razorback.Ntlv
