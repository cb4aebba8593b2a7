import Razorback.JsonBuffer.RoundTrip
import Razorback.Messages.Commands

/-! Every command and cache message is read from its text with all its fields. -/

namespace Razorback.Messages
open Records Text Uuids JsonBuffer List Option
open Json (Fields FieldsWithin add get nonNull)

/-! ### Lists of strings, UUIDs and named UUIDs -/

section Values

variable {lib : Libs} {parent : Fields} {name : String}

theorem getUint16_of_get (h : get parent name = some (uintJson value.toUInt64)) :
    getUint16 parent name = some value := by
  have hvalue : value.toNat ≤ 2 ^ 16 - 1 := Nat.le_sub_one_of_lt value.toNat_lt
  simp only [getUint16, h, uintJson, UInt16.toNat_toUInt64, parseUnsignedText_decimal hvalue (by decide),
    map_some, UInt16.ofNat_toNat]

@[simp] theorem nonNull_array (items : List Json) : nonNull (.array items) = some (.array items) := rfl

theorem getStringList_of_get (h : get parent name = some (stringListJson list)) :
    getStringList parent name = some list := by
  simp only [getStringList, h, stringListJson, mapM_map]
  exact Partial.list_mapM_self fun text _ => congrArg some (cString_bytes text)

theorem uuidEntryOfJson_written (h : uuidEntryJson lib entry = some value) :
    uuidEntryOfJson lib value = some entry := by
  unfold uuidEntryJson at h
  split at h
  · simp at h
  next hname =>
  obtain ⟨object, hobject⟩ : ∃ object, putOptionalString (putString (putString [] "id" (lib.uuidUnparse entry.uuid))
    "name" entry.sName) "description" entry.sDescription = object := ⟨_, rfl⟩
  rw [hobject] at h
  obtain rfl := some.inj h
  have hid : getString object "id" = some (lib.uuidUnparse entry.uuid) := by
    apply getString_of_get
    simp [← hobject]
  have hnameRead : getString object "name" = some entry.sName := by
    apply getString_of_get
    simp [← hobject]
  have hdescription : getOptionalString object "description" = some entry.sDescription := by
    apply getOptionalString_of_get
    cases hd : entry.sDescription <;> simp [← hobject, hd]
  simp only [uuidEntryOfJson, hid, hnameRead, hdescription, if_neg hname, lib.uuidParse_unparse, bind_eq_bind,
    bind_some]

variable {list : List UUIDEntry}

theorem mapM_uuidEntryOfJson
    (h : list.mapM (uuidEntryJson lib) = some entries) : entries.mapM (uuidEntryOfJson lib) = some list := by
  induction Partial.list_mapM_eq_some_iff.mp h with
  | nil => rfl
  | cons hentry hrest ih =>
    simp [uuidEntryOfJson_written hentry, ih (Partial.list_mapM_eq_some_iff.mpr hrest)]

theorem getUUIDList_of_get (hvalue : uuidListJson lib list = some value)
    (h : get parent name = some value) : getUUIDList lib parent name = some list := by
  obtain ⟨entries, hentries, rfl⟩ := map_eq_some_iff.mp hvalue
  simp only [getUUIDList, h, mapM_uuidEntryOfJson hentries]

theorem nonNull_uuidListJson (h : uuidListJson lib list = some value) :
    nonNull value = some value := by
  obtain ⟨entries, -, rfl⟩ := map_eq_some_iff.mp h
  rfl

theorem getDataTypes_of_get {list : List Uuid} (h : get parent "Data_Types" = some (dataTypesJson lib list))
    (hcount : list.length < 2 ^ 32) : getDataTypes lib parent = some list := by
  simp only [getDataTypes, h, dataTypesJson, length_map, Nat.mod_eq_of_lt hcount, ← map_take,
    take_length, mapM_map]
  apply Partial.list_mapM_self
  simp [getStringOf, stringJson, lib.uuidParse_unparse]

end Values

/-! ### The objects of the commands -/

section Cases

variable {lib : Libs} {registry : Registry} {msg : Fields}

theorem configurationUpdate_cases
    (h : commandFields lib registry (.configurationUpdate configUpdate) = some msg) :
    ∃ types names dataTypes, uuidListJson lib configUpdate.ntlvTypes = some types ∧
      uuidListJson lib configUpdate.ntlvNames = some names ∧ uuidListJson lib configUpdate.dataTypes = some dataTypes ∧
      msg = add (add (add [] "NTLV_Types" types) "NTLV_Names" names) "Data_Types" dataTypes := by
  obtain ⟨fields, hfields, hrest⟩ := bind_eq_some_iff.mp h
  obtain ⟨types, htypes, rfl⟩ := map_eq_some_iff.mp hfields
  obtain ⟨fields, hfields, hrest⟩ := bind_eq_some_iff.mp hrest
  obtain ⟨names, hnames, rfl⟩ := map_eq_some_iff.mp hfields
  obtain ⟨dataTypes, hdata, rfl⟩ := map_eq_some_iff.mp hrest
  exact ⟨types, names, dataTypes, htypes, hnames, hdata, rfl⟩

theorem cacheResp_cases (h : commandFields lib registry (.cacheResp submit) = some msg) :
    ∃ id, blockIdJson lib submit.pId = some id ∧
      msg = putUint32 (putUint32 (add [] "Block_ID" id) "SF_Flags" submit.iSfFlags) "Ent_Flags" submit.iEntFlags := by
  obtain ⟨fields, hfields, hmsg⟩ := bind_eq_some_iff.mp h
  obtain ⟨id, hid, rfl⟩ := map_eq_some_iff.mp hfields
  exact ⟨id, hid, (some.inj hmsg).symm⟩

end Cases

/-! ### How deep a command is nested -/

section Within

variable {lib : Libs} {registry : Registry} {msg : Fields} {n : Nat}

variable {name : String}

theorem putUUID_within (lib : Libs) (h : FieldsWithin msg (n + 1)) (hkey : Json.ValidKey name) (uuid : Uuid) :
    FieldsWithin (putUUID lib msg name uuid) (n + 1) :=
  h.add hkey (uuidJson_shape lib uuid).wellFormed ((uuidJson_shape lib uuid).depth_eq.trans_le (Nat.le_add_left 1 n))

theorem putUint64_within (h : FieldsWithin msg n) (hkey : Json.ValidKey name) (value : UInt64) :
    FieldsWithin (putUint64 msg name value) n :=
  h.add hkey (uintJson_shape value).wellFormed (Nat.zero_le n)

theorem putString_within (h : FieldsWithin msg n) (hkey : Json.ValidKey name) (text : CString) :
    FieldsWithin (putString msg name text) n :=
  h.add hkey (stringJson_shape text).wellFormed (Nat.zero_le n)

theorem strings_within (h : FieldsWithin msg (n + 1)) (hkey : Json.ValidKey name) (texts : List CString) :
    FieldsWithin (add msg name (.array (texts.map stringJson))) (n + 1) := by
  refine h.add hkey (Json.wellFormed_array ?_) (Json.depth_array_le ?_)
  · simp [stringJson, Json.WellFormed]
  · simp [stringJson, Json.depth]

theorem uuidEntryJson_within (h : uuidEntryJson lib entry = some value) :
    value.WellFormed ∧ value.depth ≤ 1 := by
  unfold uuidEntryJson at h
  split at h
  · simp at h
  have h1 : FieldsWithin (putString [] "id" (lib.uuidUnparse entry.uuid)) 0 :=
    putString_within .nil (by decide) _
  have h2 : FieldsWithin (putString (putString [] "id" (lib.uuidUnparse entry.uuid)) "name" entry.sName) 0 :=
    putString_within h1 (by decide) _
  have h3 : FieldsWithin (putOptionalString (putString (putString [] "id" (lib.uuidUnparse entry.uuid))
      "name" entry.sName) "description" entry.sDescription) 0 := by
    cases entry.sDescription with
    | none => exact h2
    | some description => exact putString_within h2 (by decide) description
  obtain rfl := some.inj h
  exact ⟨h3.wellFormed, h3.object_depth_le⟩

theorem uuidList_within (h : FieldsWithin msg (n + 2)) (hkey : Json.ValidKey name) (hvalue : uuidListJson lib list = some value) :
    FieldsWithin (add msg name value) (n + 2) := by
  obtain ⟨entries, hentries, rfl⟩ := map_eq_some_iff.mp hvalue
  have heach : ∀ item ∈ entries, item.WellFormed ∧ item.depth ≤ 1 := by
    intro item hitem
    obtain ⟨entry, -, hentry⟩ := Partial.mem_of_list_mapM hentries item hitem
    exact uuidEntryJson_within hentry
  refine h.add hkey (Json.wellFormed_array fun item hitem => (heach item hitem).1) ?_
  exact (Json.depth_array_le fun item hitem => (heach item hitem).2).trans (by omega)

theorem blockId_within (h : FieldsWithin msg (n + 2)) (hkey : Json.ValidKey name) {id : BlockId}
    {value : Json} (hvalue : blockIdJson lib id = some value) : FieldsWithin (add msg name value) (n + 2) :=
  h.add hkey (blockIdJson_shape lib hvalue).wellFormed
    ((blockIdJson_shape lib hvalue).depth_eq.trans_le (Nat.le_add_left 2 n))

theorem putDispatcher_within (h : FieldsWithin msg (n + 1)) (hello : MessageHello) :
    FieldsWithin (putDispatcher msg hello) (n + 1) := by
  have h1 := putUint64_within h (show Json.ValidKey "Priority" by decide) hello.priority.toUInt64
  have h2 := putUint64_within h1 (show Json.ValidKey "Protocol" by decide) hello.protocol.toUInt64
  have h3 := putUint64_within h2 (show Json.ValidKey "Port" by decide) hello.port.toUInt64
  have h4 := putUint64_within h3 (show Json.ValidKey "Flags" by decide) hello.flags.toUInt64
  exact strings_within h4 (by decide) (hello.addressList.getD [])

theorem commandFields_within (h : commandFields lib registry command = some msg) :
    FieldsWithin msg 2 := by
  have hnil : FieldsWithin [] 2 := .nil
  cases command with
  | hello hello =>
    obtain ⟨isDispatcher, -, hmsg⟩ := bind_eq_some_iff.mp h
    have h1 := putUUID_within lib hnil (show Json.ValidKey "Nugget_Type" by decide) hello.uuidNuggetType
    have h2 := putUUID_within lib h1 (show Json.ValidKey "App_Type" by decide) hello.uuidApplicationType
    have h3 := putUint64_within h2 (show Json.ValidKey "Locality" by decide) hello.locality.toUInt64
    obtain rfl := some.inj hmsg
    cases isDispatcher with
    | false => exact h3
    | true => exact putDispatcher_within h3 hello
  | registrationRequest regReq =>
    have h1 := putUUID_within lib hnil (show Json.ValidKey "Nugget_Type" by decide) regReq.uuidNuggetType
    have h2 := putUUID_within lib h1 (show Json.ValidKey "App_Type" by decide) regReq.uuidApplicationType
    have h3 := strings_within h2 (show Json.ValidKey "Data_Types" by decide) (regReq.dataTypeList.map lib.uuidUnparse)
    rw [List.map_map] at h3
    exact some.inj h ▸ h3
  | configurationUpdate configUpdate =>
    obtain ⟨types, names, dataTypes, htypes, hnames, hdata, rfl⟩ := configurationUpdate_cases h
    have h1 := uuidList_within hnil (show Json.ValidKey "NTLV_Types" by decide) htypes
    have h2 := uuidList_within h1 (show Json.ValidKey "NTLV_Names" by decide) hnames
    exact uuidList_within h2 (by decide) hdata
  | configurationAck configAck =>
    have h1 := putUUID_within lib hnil (show Json.ValidKey "Nugget_Type" by decide) configAck.uuidNuggetType
    have h2 := putUUID_within lib h1 (show Json.ValidKey "App_Type" by decide) configAck.uuidApplicationType
    exact some.inj h ▸ h2
  | error error =>
    exact some.inj h ▸ putString_within hnil (by decide) error.sMessage
  | terminate term =>
    exact some.inj h ▸ putString_within hnil (by decide) term.sTerminateReason
  | cacheReq submit =>
    obtain ⟨id, hid, rfl⟩ := map_eq_some_iff.mp h
    have h1 := putUUID_within lib hnil (show Json.ValidKey "Requestor" by decide) submit.uuidRequestor
    exact blockId_within h1 (by decide) hid
  | cacheResp submit =>
    obtain ⟨id, hid, rfl⟩ := cacheResp_cases h
    have h1 := blockId_within hnil (show Json.ValidKey "Block_ID" by decide) hid
    have h2 := putUint64_within h1 (show Json.ValidKey "SF_Flags" by decide) submit.iSfFlags.toUInt64
    exact putUint64_within h2 (by decide) submit.iEntFlags.toUInt64

end Within

/-! ### What is read of a command -/

section Written

variable {lib : Libs} {registry : Registry} {msg : Fields}

theorem restoredBlockId_clone {id copy : BlockId} (hid : CompleteId id) (h : blockIdClone id = some copy) :
    restoredBlockId copy = some copy := by
  obtain ⟨hash, hhash, hrest⟩ := bind_eq_some_iff.mp h
  have hcomplete := hid hash hhash
  obtain ⟨hashCopy, hclone, hcopy⟩ := bind_eq_some_iff.mp hrest
  obtain rfl := some.inj hcopy
  rw [hashClone, if_pos hcomplete.final] at hclone
  obtain rfl := some.inj hclone
  have hdigest : Hash.digest { hash with pData := hash.digest, iFlags := hashFlagFinal } = hash.digest := by
    rw [Hash.digest, Hash.digest, take_take, Nat.min_self]
  simp only [restoredBlockId, restoredHash, hcomplete.size.symm, hdigest, bind_eq_bind, bind_some, if_true]

theorem readDispatcher_written
    (haddresses : hello.addressList = some addresses) (hmsg : msg = putDispatcher fields hello) :
    readDispatcher msg base = some { base with
      priority := hello.priority, protocol := hello.protocol, port := hello.port, flags := hello.flags,
      addressList := hello.addressList } := by
  have hpriority : getUint8 msg "Priority" = some hello.priority := by
    apply getUint8_of_get
    simp [hmsg, putDispatcher]
  have hprotocol : getUint8 msg "Protocol" = some hello.protocol := by
    apply getUint8_of_get
    simp [hmsg, putDispatcher]
  have hport : getUint16 msg "Port" = some hello.port := by
    apply getUint16_of_get
    simp [hmsg, putDispatcher]
  have hflags : getUint32 msg "Flags" = some hello.flags := by
    apply getUint32_of_get
    simp [hmsg, putDispatcher]
  have haddressRead : getStringList msg "Address_List" = some addresses := by
    apply getStringList_of_get
    simp [hmsg, putDispatcher, haddresses, stringListJson]
  simp only [readDispatcher, hpriority, hprotocol, hport, hflags, haddressRead, haddresses, bind_eq_bind,
    bind_some]

theorem helloInitialize_cases (h : helloInitialize registry context = some hello) :
    ∃ isDispatcher, isNamedUUID registry nuggetTypeDispatcher .nuggetType hello.uuidNuggetType = some isDispatcher ∧
      if isDispatcher then ∃ addresses, hello.addressList = some addresses
      else hello = { hello with priority := 0, flags := 0, addressList := none, protocol := 0, port := 0 } := by
  obtain ⟨isDispatcher, hdispatcher, hrest⟩ := bind_eq_some_iff.mp h
  cases isDispatcher with
  | false =>
    obtain rfl := some.inj hrest
    exact ⟨false, hdispatcher, rfl⟩
  | true =>
    obtain ⟨addresses, -, hhello⟩ := bind_eq_some_iff.mp hrest
    obtain rfl := some.inj hhello
    exact ⟨true, hdispatcher, addresses, rfl⟩

theorem readHello_written (hbuilt : helloInitialize registry context = some hello)
    (h : commandFields lib registry (.hello hello) = some msg) :
    readCommand lib registry .hello msg = some (.hello hello) := by
  obtain ⟨isDispatcher, hdispatcher, hfields⟩ := helloInitialize_cases hbuilt
  have hmsg : msg = if isDispatcher then putDispatcher (putUint8 (putUUID lib (putUUID lib [] "Nugget_Type"
      hello.uuidNuggetType) "App_Type" hello.uuidApplicationType) "Locality" hello.locality) hello
      else putUint8 (putUUID lib (putUUID lib [] "Nugget_Type"
      hello.uuidNuggetType) "App_Type" hello.uuidApplicationType) "Locality" hello.locality := by
    simpa [commandFields, hdispatcher] using h.symm
  have htype : getUUID lib msg "Nugget_Type" = some hello.uuidNuggetType := by
    apply getUUID_of_get
    cases isDispatcher <;> simp [hmsg, putDispatcher]
  have happ : getUUID lib msg "App_Type" = some hello.uuidApplicationType := by
    apply getUUID_of_get
    cases isDispatcher <;> simp [hmsg, putDispatcher]
  have hlocality : getUint8 msg "Locality" = some hello.locality := by
    apply getUint8_of_get
    cases isDispatcher <;> simp [hmsg, putDispatcher]
  simp only [readCommand, htype, happ, hlocality, hdispatcher, bind_eq_bind, bind_some]
  cases isDispatcher with
  | false => exact congrArg (fun hello => some (Command.hello hello)) hfields.symm
  | true =>
    obtain ⟨addresses, haddresses⟩ := hfields
    simp [readDispatcher_written haddresses hmsg]

theorem getBlockId_clone {id copy : BlockId} {value : Json} {name : String} (hid : CompleteId id)
    (hclone : blockIdClone id = some copy) (hvalue : blockIdJson lib copy = some value)
    (h : get msg name = some value) : getBlockId lib msg name = some copy := by
  rw [getBlockId_of_get hvalue h, restoredBlockId_clone hid hclone]

theorem readCommand_written (hbuilt : BuiltCommand registry command)
    (h : commandFields lib registry command = some msg) : readCommand lib registry command.kind msg = some command := by
  cases hbuilt with
  | hello hinit => exact readHello_written hinit h
  | registrationRequest nuggetType applicationType dataTypeCount dataTypeList =>
    obtain ⟨regReq, hregReq⟩ : ∃ regReq, registrationRequestInitialize nuggetType applicationType dataTypeCount
      dataTypeList = regReq := ⟨_, rfl⟩
    have hcount : regReq.dataTypeList.length < 2 ^ 32 := by
      rw [← hregReq, registrationRequestInitialize, length_take]
      exact (Nat.min_le_left _ _).trans_lt dataTypeCount.toNat_lt
    rw [hregReq] at h ⊢
    have hmsg := (some.inj h).symm
    have htype : getUUID lib msg "Nugget_Type" = some regReq.uuidNuggetType := by
      apply getUUID_of_get
      simp [hmsg]
    have happ : getUUID lib msg "App_Type" = some regReq.uuidApplicationType := by
      apply getUUID_of_get
      simp [hmsg]
    have hdata : getDataTypes lib msg = some regReq.dataTypeList := by
      refine getDataTypes_of_get ?_ hcount
      simp [hmsg, dataTypesJson]
    simp only [readCommand, Command.kind, htype, happ, hdata, bind_eq_bind, bind_some]
  | configurationUpdate getList =>
    obtain ⟨types, names, dataTypes, htypes, hnames, hdata, heq⟩ := configurationUpdate_cases h
    have htypesRead : getUUIDList lib msg "NTLV_Types" = some (getList .ntlvType) := by
      apply getUUIDList_of_get htypes
      simp [heq, nonNull_uuidListJson htypes]
    have hnamesRead : getUUIDList lib msg "NTLV_Names" = some (getList .ntlvName) := by
      apply getUUIDList_of_get hnames
      simp [heq, nonNull_uuidListJson hnames]
    have hdataRead : getUUIDList lib msg "Data_Types" = some (getList .dataType) := by
      apply getUUIDList_of_get hdata
      simp [heq, nonNull_uuidListJson hdata]
    simp only [readCommand, Command.kind, htypesRead, hnamesRead, hdataRead, configurationUpdateInitialize,
      bind_eq_bind, bind_some]
  | configurationAck nuggetType applicationType =>
    have hmsg := (some.inj h).symm
    have htype : getUUID lib msg "Nugget_Type" = some nuggetType := by
      apply getUUID_of_get
      simp [hmsg, configurationAckInitialize]
    have happ : getUUID lib msg "App_Type" = some applicationType := by
      apply getUUID_of_get
      simp [hmsg, configurationAckInitialize]
    simp only [readCommand, Command.kind, htype, happ, configurationAckInitialize, bind_eq_bind, bind_some]
  | @error _ error hinit =>
    have hmessage : getString msg "Message" = some error.sMessage := by
      apply getString_of_get
      simp [← some.inj h]
    simp only [readCommand, Command.kind, hmessage, bind_eq_bind, bind_some]
  | @terminate _ term hinit =>
    have hreason : getString msg "Reason" = some term.sTerminateReason := by
      apply getString_of_get
      simp [← some.inj h]
    simp only [readCommand, Command.kind, hreason, bind_eq_bind, bind_some]
  | @cacheReq requestor _ submit hcomplete hinit =>
    obtain ⟨id, hid, hrest⟩ := bind_eq_some_iff.mp hinit
    obtain ⟨copy, hclone, hsubmit⟩ := bind_eq_some_iff.mp hrest
    obtain rfl := some.inj hsubmit
    obtain ⟨value, hvalue, heq⟩ := map_eq_some_iff.mp h
    have hrequestor : getUUID lib msg "Requestor" = some requestor := by
      apply getUUID_of_get
      simp [← heq]
    have hidRead : getBlockId lib msg "Block_ID" = some copy := by
      apply getBlockId_clone (hcomplete id hid) hclone hvalue
      simp [← heq, nonNull_blockIdJson lib hvalue]
    simp only [readCommand, Command.kind, hrequestor, hidRead, bind_eq_bind, bind_some]
  | @cacheResp _ sfFlags entFlags submit hcomplete hinit =>
    obtain ⟨id, hid, hrest⟩ := bind_eq_some_iff.mp hinit
    obtain ⟨copy, hclone, hsubmit⟩ := bind_eq_some_iff.mp hrest
    obtain ⟨value, hvalue, heq⟩ := cacheResp_cases h
    obtain rfl := some.inj hsubmit
    have hidRead : getBlockId lib msg "Block_ID" = some copy := by
      apply getBlockId_clone (hcomplete id hid) hclone hvalue
      simp [heq, nonNull_blockIdJson lib hvalue]
    have hsf : getUint32 msg "SF_Flags" = some sfFlags := by
      apply getUint32_of_get
      simp [heq]
    have hent : getUint32 msg "Ent_Flags" = some entFlags := by
      apply getUint32_of_get
      simp [heq]
    simp only [readCommand, Command.kind, hidRead, hsf, hent, bind_eq_bind, bind_some]

end Written

/-- What `deserialize` makes of the text of a command a constructor built is the command. -/
theorem command_round_trip (lib : Libs) (registry : Registry) (command : Command) (text : CString) :
    BuiltCommand registry command → serializeCommand lib registry command = some text →
      deserializeCommand lib registry command.kind text = some command := by
  intro hbuilt hserialize
  obtain ⟨msg, hmsg, rfl⟩ := map_eq_some_iff.mp hserialize
  have hwithin := commandFields_within hmsg
  have hdepth : (Json.object msg).depth ≤ tokenerDefaultDepth := hwithin.object_depth_le.trans (by decide)
  rw [deserializeCommand, lib.tokenerParse_text .spaced hwithin.wellFormed, if_pos hdepth]
  exact readCommand_written hbuilt hmsg

def dispatcherRegistry : Registry
  | .nuggetType => [⟨5, nuggetTypeDispatcher, none⟩]
  | _ => []

def dispatcherContext : HelloContext :=
  { uuidNuggetId := 1, uuidNuggetType := 5, uuidApplicationType := 2, locality := 255,
    dispatcher := { flags := 2 ^ 32 - 1, priority := 9, port := 65535, protocol := 1,
                    addressList := some [ascii "10.0.0.1", ascii "::1"] } }

theorem dispatcher_hello_read :
    ∃ hello text, helloInitialize dispatcherRegistry dispatcherContext = some hello ∧
      serializeCommand textLibs dispatcherRegistry (.hello hello) = some text ∧
      deserializeCommand textLibs dispatcherRegistry .hello text = some (.hello hello) := by
  obtain ⟨hello, hhello⟩ := isSome_iff_exists.mp
    (show (helloInitialize dispatcherRegistry dispatcherContext).isSome by decide)
  obtain ⟨isDispatcher, hdispatcher, -⟩ := helloInitialize_cases hhello
  obtain ⟨text, htext⟩ : ∃ text, serializeCommand textLibs dispatcherRegistry (.hello hello) = some text := by
    simp [serializeCommand, commandFields, hdispatcher]
  exact ⟨hello, text, hhello, htext, command_round_trip textLibs dispatcherRegistry _ text (.hello hhello) htext⟩

end Razorback.Messages
