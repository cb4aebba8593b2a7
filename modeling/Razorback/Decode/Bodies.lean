import Razorback.Decode.Messages
import Razorback.Decode.Nested

/-! The accounts of the envelope and of the body of each message: `deserialize` fills what `destroy` releases. -/

namespace Razorback.Decode
open Records Text Uuids Heap
open JsonBuffer (Libs)
open Messages (BodyCodec DeliveredEntry)
open Json (Fields)
open Partial (isSome_bind)

/-! ### The envelope -/

section Envelope

variable {exact quiet : Prop}

def HeaderPtr.own (header : HeaderPtr) : Multiset Address := {header.sName} + ({header.sValue} + {header.addr})

theorem messageHeaderDelete_frees (header : HeaderPtr) : Frees exact quiet header.own (messageHeaderDelete header) :=
  (free_frees header.sName).andThen ((free_frees header.sValue).andThen (free_frees header.addr))

abbrev headersOwn : ListPtr HeaderPtr → Multiset Address := ListPtr.own HeaderPtr.own

def MessagePtr.own (message : MessagePtr) : Multiset Address :=
  {message.serialized} + (headersOwn message.headers +
    ((message.brokerSettlement.elim 0 fun p => {p}) + {message.addr}))

theorem messageDestroy_frees (message : MessagePtr) (body : Option Address) :
    Frees exact quiet ((body.elim 0 fun p => {p}) + message.own) (messageDestroy message body) :=
  (Frees.unlessNull free_frees body).andThen ((free_frees message.serialized).andThen
    ((listDestroy_frees messageHeaderDelete_frees message.headers).andThen
      ((Frees.unlessNull free_frees message.brokerSettlement).andThen (free_frees message.addr))))

theorem messageHeaderListAdd_meets (headers : ListPtr HeaderPtr) :
    Meets exact quiet (headersOwn headers) (messageHeaderListAdd headers) headersOwn fun _ => True := by
  refine .bind_beside alloc_meets fun addr _ => .bind_beside alloc_meets fun sName _ =>
    .bind_beside alloc_meets fun sValue _ => ?_
  refine .holding (listPush_meets HeaderPtr.own headers ⟨addr, sName, sValue⟩) ?_
  simp only [HeaderPtr.own]
  ac_rfl

theorem receiveHeader_meets (headers : ListPtr HeaderPtr) (delivered : DeliveredEntry) :
    Meets exact quiet (headersOwn headers) (receiveHeader headers delivered) headersOwn fun _ => True := by
  refine .bind_beside alloc_meets fun name _ => ?_
  cases delivered.entry.kind with
  | utf8 =>
    refine .bind (((messageHeaderListAdd_meets headers).frame {name}).holding (add_comm _ _)) fun headers' _ => ?_
    refine .holding ?_ (add_comm _ _)
    exact (free_frees name).andThen (.answer rfl trivial)
  | bytes =>
    refine .bind_beside alloc_meets fun value _ => ?_
    refine .bind (((messageHeaderListAdd_meets headers).frame ({value} + {name})).holding ?_) fun headers' _ => ?_
    · ac_rfl
    refine .holding ?_ (show {value} + ({name} + headersOwn headers') = _ from ?_)
    · exact (free_frees value).andThen ((free_frees name).andThen (.answer rfl trivial))
    · ac_rfl
  | other => exact (free_frees name).andThen (.answer rfl trivial)

theorem receiveHeaders_meets (headers : ListPtr HeaderPtr) (entries : List DeliveredEntry) :
    Meets exact quiet (headersOwn headers) (receiveHeaders headers entries) headersOwn fun _ => True := by
  induction entries generalizing headers with
  | nil => exact .answer rfl trivial
  | cons delivered entries ih => exact (receiveHeader_meets headers delivered).bind fun headers' _ => ih headers'

theorem newSettlement_meets (autoAck : Bool) :
    Meets exact quiet 0 (newSettlement autoAck) (fun r => r.elim 0 fun p => {p}) fun _ => True := by
  cases autoAck with
  | true => exact .answer rfl trivial
  | false => exact alloc_meets.bind fun settlement _ => .answer rfl trivial

theorem receiveMessage_meets (autoAck : Bool) (entries : List DeliveredEntry) :
    Meets exact quiet 0 (receiveMessage autoAck entries) MessagePtr.own fun _ => True := by
  refine alloc_meets.bind fun addr _ => .bind_beside (listCreate_meets HeaderPtr.own) fun headers _ =>
    .bind_beside (newSettlement_meets autoAck) fun settlement _ => .bind_beside alloc_meets fun serialized _ => ?_
  refine .bind (((receiveHeaders_meets headers entries).frame
    ({serialized} + ((settlement.elim 0 fun p => {p}) + {addr}))).holding ?_) fun headers' _ => .answer ?_ trivial
  · ac_rfl
  · simp only [MessagePtr.own]
    ac_rfl

end Envelope

/-! ### Handlers -/

def Accounted (exact quiet : Prop) (handler : BodyHandler) (text : CString) (found : Bool) : Prop :=
  ∃ own : handler.Body → Multiset Address,
    Meets exact quiet 0 (handler.deserialize text) (fun r => r.2.elim 0 own) (·.1 = found) ∧
      ∀ message body, Frees exact quiet (message.own + body.elim 0 own) (handler.destroy message body)

abbrev bodyOwn {σ : Type} (parts : σ → Multiset Address) (addr : σ → Address) (s : σ) : Multiset Address :=
  parts s + {addr s}

section Handlers

variable {exact quiet : Prop} {lib : Libs} {text : CString} {σ β : Type} {fresh : Address → σ} {addr : σ → Address}
  {fields : Json → List (Step Fault σ)} {own : σ → Multiset Address} {parts : σ → Multiset Address}
  {destroy : σ → Prog Unit} {read : Fields → Option β}

theorem isSome_readText {value : Json} (hvalue : lib.tokenerParse text = some value) (hnothing : read [] = none) :
    (Messages.readText lib read text).isSome = (read (members value)).isSome := by
  unfold Messages.readText
  rw [hvalue]
  cases value with
  | object fields => rfl
  | _ => simp [members, hnothing]

theorem deserializeFields_meets (hfresh : ∀ p, own (fresh p) = {p}) (hnothing : read [] = none)
    (hfill : ∀ value p, lib.tokenerParse text = some value → value ≠ .null →
      Fills exact quiet own (fields value) (fresh p) (read (members value)).isSome) :
    Meets exact quiet 0 (deserializeFields lib fresh fields text) (fun r => r.2.elim 0 own)
      (·.1 = (Messages.readText lib read text).isSome) := by
  refine alloc_meets.bind fun p _ => ?_
  have hparsed (value : Json) (hvalue : lib.tokenerParse text = some value) (hnull : value ≠ .null) :
      Meets exact quiet {p} (do
        let tree ← alloc
        let r ← fill (fields value) (fresh p)
        free tree
        pure (r.1, some r.2)) (fun r => r.2.elim 0 own) (·.1 = (Messages.readText lib read text).isSome) := by
    rw [isSome_readText hvalue hnothing, ← hfresh p]
    refine .bind_beside alloc_meets fun tree _ => ?_
    refine .bind ((Meets.frame (hfill value p hvalue hnull) {tree}).holding (add_comm _ _)) fun r hr => ?_
    refine .holding ?_ (add_comm _ _)
    exact (free_frees tree).andThen (.answer rfl hr)
  -- the text `null` is parsed to NULL, like a text that is not parsed
  cases hvalue : lib.tokenerParse text with
  | none => exact .answer (hfresh p).symm (by simp [Messages.readText, hvalue])
  | some value =>
    cases value with
    | null => exact .answer (hfresh p).symm (by simp [Messages.readText, hvalue])
    | _ => exact hparsed _ hvalue (by simp)

theorem destroyMembers_frees (hdestroy : ∀ s, Frees exact quiet (parts s) (destroy s)) (message : MessagePtr)
    (body : Option σ) :
    Frees exact quiet (message.own + body.elim 0 (bodyOwn parts addr)) (destroyMembers addr destroy message body) := by
  refine .holding ((Frees.unlessNull hdestroy body).andThen (messageDestroy_frees message (body.map addr))) ?_
  cases body with
  | none => simp
  | some s =>
    ac_rfl

theorem bodyHandler_accounted {P : Json → Prop}
    (hparsed : ∀ value, lib.tokenerParse text = some value → value ≠ .null → P value)
    (hdestroy : ∀ s, Frees exact quiet (parts s) (destroy s))
    (hfill : ∀ {value}, P value → ∀ p,
      Fills exact quiet (bodyOwn parts addr) (fields value) (fresh p) (read (members value)).isSome)
    (hfresh : ∀ p, parts (fresh p) = 0 ∧ addr (fresh p) = p := by exact fun _ => ⟨rfl, rfl⟩)
    (hnothing : read [] = none := by rfl) :
    Accounted exact quiet (bodyHandler lib fresh addr fields destroy) text (Messages.readText lib read text).isSome := by
  refine ⟨bodyOwn parts addr, deserializeFields_meets (fun p => ?_) hnothing
    fun value p hvalue hnull => hfill (hparsed value hvalue hnull) p, destroyMembers_frees hdestroy⟩
  rw [bodyOwn, (hfresh p).1, (hfresh p).2, zero_add]

end Handlers

/-! ### Submissions, alerts and output -/

/-- What the nested decoders need of a message: nothing that is forgotten in an exact account, nothing that is a fault in
a quiet one. -/
structure Fit (exact quiet : Prop) (lib : Libs) (registry : Registry) (msg : Json) : Prop where
  object : quiet → isObject msg
  parentFree : exact → ParentFree lib registry (members msg)
  tame : quiet → Tame lib (members msg)

section Data

variable {exact quiet : Prop} {lib : Libs} {registry : Registry} {msg : Json}

def BlockSubmissionPtr.parts (submit : BlockSubmissionPtr) : Multiset Address := submit.pEvent.elim 0 EventPtr.own

theorem blockSubmission_fills (h : Fit exact quiet lib registry msg) (p : Address) :
    Fills exact quiet (bodyOwn BlockSubmissionPtr.parts BlockSubmissionPtr.addr) (blockSubmissionFields lib registry msg)
      ⟨p, none⟩ (Messages.readMessage lib registry .blockSubmission (members msg)).isSome := by
  refine .as ?_ (isSome_bind fun _ => isSome_bind fun _ => isSome_bind fun _ => rfl)
  refine .value (getNumber_gives _ h.object) (.slot (getEvent_reads h.parentFree h.tame h.object .self)
    (fun _ _ event => ?_) fun _ => .value (getNumber_gives _ h.object) .nil)
  exact add_comm _ _

def InspectionSubmissionPtr.parts (submit : InspectionSubmissionPtr) : Multiset Address :=
  submit.pBlock.elim 0 BlockPtr.own + ((submit.eventId.elim 0 fun p => {p}) +
    (submit.pEventMetadata.elim 0 ntlvOwn + submit.localityList.elim 0 fun p => {p}))

theorem inspectionSubmissionDestroy_frees (submit : InspectionSubmissionPtr) :
    Frees exact quiet submit.parts (inspectionSubmissionDestroy submit) :=
  (Frees.unlessNull blockDestroy_frees submit.pBlock).andThen ((Frees.unlessNull free_frees submit.eventId).andThen
    ((Frees.unlessNull ntlvDestroy_frees submit.pEventMetadata).andThen (Frees.unlessNull free_frees submit.localityList)))

theorem inspectionSubmission_fills (h : Fit exact quiet lib registry msg) (p : Address) :
    Fills exact quiet (bodyOwn InspectionSubmissionPtr.parts InspectionSubmissionPtr.addr)
      (inspectionSubmissionFields lib registry msg) ⟨p, none, none, none, none⟩
      (Messages.readMessage lib registry .inspection (members msg)).isSome := by
  refine .as ?_ (isSome_bind fun _ => isSome_bind fun _ => isSome_bind fun _ => isSome_bind fun _ =>
    isSome_bind fun _ => rfl)
  refine .value (getNumber_gives _ h.object) (.slot (getEventId_reads h.object) (fun _ _ id => ?_) fun eventId =>
    .slot (metadata_reads h.tame h.object .self) (fun _ _ list => ?_) fun pEventMetadata =>
    .slot (getBlock_reads h.parentFree h.tame h.object .self (by decide)) (fun _ _ block => ?_) fun pBlock =>
    .slot (getUint8List_reads h.object) (fun _ _ list => ?_) fun localityList => .nil)
  all_goals
    simp only [bodyOwn, InspectionSubmissionPtr.parts, Option.elim_some]
    ac_rfl

def AlertPrimaryPtr.parts (alert : AlertPrimaryPtr) : Multiset Address :=
  alert.event.elim 0 EventPtr.own + (alert.block.elim 0 BlockPtr.own + (alert.metadata.elim 0 ntlvOwn +
    ((alert.message.elim 0 fun p => {p}) + alert.nugget.elim 0 NuggetPtr.own)))

theorem alertPrimaryDestroy_frees (alert : AlertPrimaryPtr) : Frees exact quiet alert.parts (alertPrimaryDestroy alert) :=
  (Frees.unlessNull eventDestroy_frees alert.event).andThen ((Frees.unlessNull blockDestroy_frees alert.block).andThen
    ((Frees.unlessNull ntlvDestroy_frees alert.metadata).andThen ((Frees.unlessNull free_frees alert.message).andThen
      (Frees.unlessNull nuggetDestroy_frees alert.nugget))))

theorem alertMessage_reads (hp : quiet → isObject msg) :
    Reads exact quiet (alertMessage msg) (fun text => text.elim 0 fun p => {p}) true := by
  refine .bind (getString_copies hp) fun r _ => ?_
  rcases r with _ | ⟨text, bytes⟩
  · exact .answer rfl rfl
  · exact .answer rfl rfl

theorem alertPrimary_fills (h : Fit exact quiet lib registry msg) (p : Address) :
    Fills exact quiet (bodyOwn AlertPrimaryPtr.parts AlertPrimaryPtr.addr) (alertPrimaryFields lib registry msg)
      ⟨p, none, none, none, none, none⟩ (Messages.readMessage lib registry .alertPrimary (members msg)).isSome := by
  refine .as ?_ (isSome_bind fun _ => isSome_bind fun _ => isSome_bind fun _ => isSome_bind fun _ => isSome_bind fun _ =>
      isSome_bind fun _ => isSome_bind fun _ => isSome_bind fun _ => isSome_bind fun _ => isSome_bind fun _ =>
      isSome_bind fun _ => isSome_bind fun _ => isSome_bind fun _ => rfl)
  refine .slot (getNugget_reads h.object) (fun _ _ nugget => ?_) fun nugget =>
    .slot (getBlock_reads h.parentFree h.tame h.object .self (by decide)) (fun _ _ block => ?_) fun block =>
    .slot (getEvent_reads h.parentFree h.tame h.object .self) (fun _ _ event => ?_) fun event =>
    .always (alertMessage_reads h.object) (fun _ text => ?_) fun message =>
    .value (getNumber_gives _ h.object) (.value (getNumber_gives _ h.object) (.value (getNumber_gives _ h.object)
      (.value (getNumber_gives _ h.object) (.value (getNumber_gives _ h.object) (.value (getNumber_gives _ h.object)
        (.value (getNumber_gives _ h.object) (.value (getNumber_gives _ h.object) (.value (getNumber_gives _ h.object)
          (.slot (metadata_reads h.tame h.object .self) (fun _ _ list => ?_) fun metadata => .nil)))))))))
  all_goals
    simp only [bodyOwn, AlertPrimaryPtr.parts, Option.elim_none, Option.elim_some]
    ac_rfl

def OutputEventPtr.parts (output : OutputEventPtr) : Multiset Address :=
  output.event.elim 0 EventPtr.own + output.nugget.elim 0 NuggetPtr.own

theorem outputEventDestroy_frees (output : OutputEventPtr) : Frees exact quiet output.parts (outputEventDestroy output) :=
  (Frees.unlessNull eventDestroy_frees output.event).andThen (Frees.unlessNull nuggetDestroy_frees output.nugget)

theorem outputEvent_fills (h : Fit exact quiet lib registry msg) (p : Address) :
    Fills exact quiet (bodyOwn OutputEventPtr.parts OutputEventPtr.addr) (outputEventFields lib registry msg)
      ⟨p, none, none⟩ (Messages.readMessage lib registry .outputEvent (members msg)).isSome := by
  refine .as ?_ (isSome_bind fun _ => isSome_bind fun _ => rfl)
  refine .slot (getNugget_reads h.object) (fun _ _ nugget => ?_) fun nugget =>
    .slot (getEvent_reads h.parentFree h.tame h.object .self) (fun _ _ event => ?_) fun event => .nil
  all_goals
    simp only [bodyOwn, OutputEventPtr.parts, Option.elim_some]
    ac_rfl

def JudgmentSubmissionPtr.parts (submit : JudgmentSubmissionPtr) : Multiset Address :=
  submit.pJudgment.elim 0 JudgmentPtr.own

theorem judgmentSubmission_fills (h : Fit exact quiet lib registry msg) (p : Address) :
    Fills exact quiet (bodyOwn JudgmentSubmissionPtr.parts JudgmentSubmissionPtr.addr)
      (judgmentSubmissionFields lib registry msg) ⟨p, none⟩ (Messages.readJudgment lib registry (members msg)).isSome := by
  refine .as ?_ (isSome_bind fun _ => isSome_bind fun _ => rfl)
  refine .value (getNumber_gives _ h.object) (.slot (getJudgment_reads h.tame h.object .self)
    (fun _ _ judgment => ?_) fun _ => .nil)
  exact add_comm _ _

def AlertChildPtr.parts (alert : AlertChildPtr) : Multiset Address :=
  alert.child.elim 0 BlockPtr.own + (alert.block.elim 0 BlockPtr.own + alert.nugget.elim 0 NuggetPtr.own)

theorem alertChildDestroy_frees (alert : AlertChildPtr) : Frees exact quiet alert.parts (alertChildDestroy alert) :=
  (Frees.unlessNull blockDestroy_frees alert.child).andThen ((Frees.unlessNull blockDestroy_frees alert.block).andThen
    (Frees.unlessNull nuggetDestroy_frees alert.nugget))

theorem alertChild_fills (h : Fit exact quiet lib registry msg) (p : Address) :
    Fills exact quiet (bodyOwn AlertChildPtr.parts AlertChildPtr.addr) (alertChildFields lib registry msg)
      ⟨p, none, none, none⟩ (Messages.readAlertChild lib registry (members msg)).isSome := by
  refine .as ?_ (isSome_bind fun _ => isSome_bind fun _ => isSome_bind fun _ => isSome_bind fun _ => isSome_bind fun _ =>
      isSome_bind fun _ => isSome_bind fun _ => isSome_bind fun _ => isSome_bind fun _ => rfl)
  refine .slot (getNugget_reads h.object) (fun _ _ nugget => ?_) fun nugget =>
    .slot (getBlock_reads h.parentFree h.tame h.object .self (by decide)) (fun _ _ block => ?_) fun block =>
    .slot (getBlock_reads h.parentFree h.tame h.object .self (by decide)) (fun _ _ child => ?_) fun child =>
    .value (getNumber_gives _ h.object) (.value (getNumber_gives _ h.object) (.value (getNumber_gives _ h.object)
      (.value (getNumber_gives _ h.object) (.value (getNumber_gives _ h.object) (.value (getNumber_gives _ h.object) .nil)))))
  all_goals
    simp only [bodyOwn, AlertChildPtr.parts, Option.elim_some]
    ac_rfl

def OutputInspectionPtr.parts (event : OutputInspectionPtr) : Multiset Address :=
  event.blockId.elim 0 BlockIdPtr.own + event.nugget.elim 0 NuggetPtr.own

theorem outputInspectionDestroy_frees (event : OutputInspectionPtr) :
    Frees exact quiet event.parts (outputInspectionDestroy event) :=
  (Frees.unlessNull blockIdDestroy_frees event.blockId).andThen (Frees.unlessNull nuggetDestroy_frees event.nugget)

theorem outputInspection_fills (hp : quiet → isObject msg) (p : Address) :
    Fills exact quiet (bodyOwn OutputInspectionPtr.parts OutputInspectionPtr.addr) (outputInspectionFields lib msg)
      ⟨p, none, none⟩ (Messages.readOutputInspection lib (members msg)).isSome := by
  refine .as ?_ (isSome_bind fun _ => isSome_bind fun _ => isSome_bind fun _ => isSome_bind fun _ => isSome_bind fun _ =>
      isSome_bind fun _ => rfl)
  refine .slot (getNugget_reads hp) (fun _ _ nugget => ?_) fun nugget =>
    .slot (getBlockId_reads hp) (fun _ _ id => ?_) fun blockId =>
    .value (getNumber_gives _ hp) (.value (getNumber_gives _ hp) (.value (getNumber_gives _ hp)
      (.value (getNumber_gives _ hp) .nil)))
  all_goals
    simp only [bodyOwn, OutputInspectionPtr.parts, Option.elim_some]
    ac_rfl

end Data

/-! ### Commands -/

section Commands

variable {exact quiet : Prop} {lib : Libs} {registry : Registry} {msg : Json}

def HelloPtr.parts (hello : HelloPtr) : Multiset Address := hello.addressList.elim 0 stringsOwn

theorem dispatcher_fills (hp : quiet → isObject msg) (hnone : hello.addressList = none)
    (read : Messages.MessageHello) :
    Fills exact quiet (bodyOwn HelloPtr.parts HelloPtr.addr) (dispatcherFields msg) hello
      (Messages.readDispatcher (members msg) read).isSome := by
  refine .as ?_ (isSome_bind fun _ => isSome_bind fun _ => isSome_bind fun _ => isSome_bind fun _ =>
    isSome_bind fun _ => rfl)
  refine .value (getNumber_gives _ hp) (.value (getNumber_gives _ hp) (.value (getNumber_gives _ hp)
    (.value (getNumber_gives _ hp) (.slot (getStringList_reads hp) (fun _ _ list => ?_) fun _ => .nil))))
  simp only [bodyOwn, HelloPtr.parts, hnone]
  exact add_comm _ _

theorem helloDispatcher_takes (hp : quiet → isObject msg) (hnone : hello.addressList = none)
    (read : Messages.MessageHello) :
    Takes exact quiet (bodyOwn HelloPtr.parts HelloPtr.addr) (helloDispatcher registry msg) hello
      ((isNamedUUID registry nuggetTypeDispatcher .nuggetType hello.uuidNuggetType).bind fun isDispatcher =>
        if isDispatcher then (Messages.readDispatcher (members msg) read).map Messages.Command.hello
        else some (.hello read)).isSome := by
  unfold Takes helloDispatcher
  rcases isNamedUUID registry nuggetTypeDispatcher .nuggetType hello.uuidNuggetType with _ | (_ | _)
  · exact .answer rfl rfl
  · exact .answer rfl rfl
  · exact (dispatcher_fills hp hnone read).as (by simp)

theorem hello_fills (hp : quiet → isObject msg) (p : Address) :
    Fills exact quiet (bodyOwn HelloPtr.parts HelloPtr.addr) (helloFields lib registry msg) ⟨p, 0, none⟩
      (Messages.readCommand lib registry .hello (members msg)).isSome := by
  unfold Messages.readCommand
  refine .given (getUUID_gives hp) (fun _ => rfl) (fun hnone => by simp [hnone]) fun type htype => ?_
  refine .known (getUUID_gives hp) (fun hnone => by simp [hnone]) fun application happlication => ?_
  refine .known (getNumber_gives _ hp) (fun hnone => by simp [hnone]) fun locality hlocality => ?_
  rw [htype, happlication, hlocality]
  exact .last (helloDispatcher_takes hp rfl _)

def RegistrationRequestPtr.parts (regReq : RegistrationRequestPtr) : Multiset Address :=
  regReq.pDataTypeList.elim 0 fun p => {p}

section
variable (hp : quiet → isObject msg) (harray : ∀ value, Json.get (members msg) "Data_Types" = some value → ∃ items, value = .array items) (hread : exact → (Messages.getDataTypes lib (members msg)).isSome)
include hp harray hread

theorem registrationDataTypes_takes (hnone : regReq.pDataTypeList = none) :
    Takes exact quiet (bodyOwn RegistrationRequestPtr.parts RegistrationRequestPtr.addr) (registrationDataTypes lib msg)
      regReq (Messages.getDataTypes lib (members msg)).isSome := by
  unfold Messages.getDataTypes at *
  refine (objectGet_gives hp).bind ?_
  generalize Json.get (members msg) "Data_Types" = found at *
  rcases found with _ | value
  · exact .answer rfl rfl
  obtain ⟨items, rfl⟩ := harray value rfl
  have hsame : ((items.take (items.length % 2 ^ 32)).mapM fun item =>
        (Messages.getStringOf lib item).bind lib.uuidParse).isSome =
      ((items.map Json.nonNull).take ((items.map Json.nonNull).length % 2 ^ 32)).all fun item =>
        ((item.bind (Messages.getStringOf lib)).bind lib.uuidParse).isSome := by
    rw [isSome_mapM_entries rfl, List.map_take, List.length_map]
    simp only [Option.bind_assoc]
  refine Gives.bind (.pure _) (.bind_beside alloc_meets fun list _ => ?_)
  rw [hsame] at hread ⊢
  split_ifs with hall
  · refine .answer ?_ hall.symm
    simp [bodyOwn, RegistrationRequestPtr.parts, hnone]
  -- the list that is freed here stays in the body, so the account of what follows cannot be exact
  · have hloose : ¬ exact := fun hexact => hall (hread hexact)
    rw [Bool.eq_false_iff.mpr hall]
    have hfreed : Meets exact quiet ({list} + bodyOwn RegistrationRequestPtr.parts RegistrationRequestPtr.addr regReq)
        (do
          free list
          pure (false, { regReq with pDataTypeList := some list }) : Prog (Bool × RegistrationRequestPtr))
        (fun _ => bodyOwn RegistrationRequestPtr.parts RegistrationRequestPtr.addr regReq) (·.1 = false) :=
      (free_frees list).andThen (.answer rfl rfl)
    exact hfreed.mono (fun _ => rfl) (fun hexact => absurd hexact hloose) fun _ h => h

theorem registrationRequest_fills (p : Address) :
    Fills exact quiet (bodyOwn RegistrationRequestPtr.parts RegistrationRequestPtr.addr)
      (registrationRequestFields lib msg) ⟨p, none⟩
      (Messages.readCommand lib registry .registrationRequest (members msg)).isSome := by
  refine .as ?_ (isSome_bind fun _ => isSome_bind fun _ => isSome_bind fun _ => rfl)
  rw [Bool.and_true]
  exact .value (getUUID_gives hp) (.value (getUUID_gives hp) (.last (registrationDataTypes_takes hp harray hread rfl)))

end

def ConfigUpdatePtr.parts (update : ConfigUpdatePtr) : Multiset Address :=
  update.ntlvTypes.elim 0 uuidsOwn + (update.ntlvNames.elim 0 uuidsOwn + update.dataTypes.elim 0 uuidsOwn)

theorem configUpdateDestroy_frees (update : ConfigUpdatePtr) : Frees exact quiet update.parts (configUpdateDestroy update) :=
  (Frees.unlessNull (listDestroy_frees uuidDestroy_frees) update.ntlvTypes).andThen
    ((Frees.unlessNull (listDestroy_frees uuidDestroy_frees) update.ntlvNames).andThen
      (Frees.unlessNull (listDestroy_frees uuidDestroy_frees) update.dataTypes))

theorem configUpdate_fills (hp : quiet → isObject msg) (p : Address) :
    Fills exact quiet (bodyOwn ConfigUpdatePtr.parts ConfigUpdatePtr.addr) (configUpdateFields lib msg)
      ⟨p, none, none, none⟩ (Messages.readCommand lib registry .configurationUpdate (members msg)).isSome := by
  refine .as ?_ (isSome_bind fun _ => isSome_bind fun _ => isSome_bind fun _ => rfl)
  refine .slot (getUUIDList_reads hp) (fun _ _ list => ?_) fun ntlvTypes =>
    .slot (getUUIDList_reads hp) (fun _ _ list => ?_) fun ntlvNames =>
    .slot (getUUIDList_reads hp) (fun _ _ list => ?_) fun dataTypes => .nil
  all_goals
    simp only [bodyOwn, ConfigUpdatePtr.parts, Option.elim_some]
    ac_rfl

theorem configAck_fills (hp : quiet → isObject msg) (p : Address) :
    Fills exact quiet (bodyOwn (fun _ => 0) id) (configAckFields lib msg) p
      (Messages.readCommand lib registry .configurationAck (members msg)).isSome := by
  refine .as ?_ (isSome_bind fun _ => isSome_bind fun _ => rfl)
  exact .value (getUUID_gives hp) (.value (getUUID_gives hp) .nil)

def TextPtr.parts (body : TextPtr) : Multiset Address := body.text.elim 0 fun p => {p}

theorem text_fills (hp : quiet → isObject msg) (p : Address) :
    Fills exact quiet (bodyOwn TextPtr.parts TextPtr.addr) [textOf msg name] ⟨p, none⟩
      ((JsonBuffer.getString (members msg) name).isSome && true) := by
  have htext : Reads exact quiet (getString msg name) (fun copy => {copy.1})
      (JsonBuffer.getString (members msg) name).isSome :=
    .mono (getString_copies hp) (fun _ => rfl) (fun _ _ _ => rfl) fun r hr => by rw [← hr, Option.isSome_map]
  refine .slot htext (fun _ _ text => ?_) fun _ => .nil
  exact add_comm _ _

def CachePtr.parts (submit : CachePtr) : Multiset Address := submit.pId.elim 0 BlockIdPtr.own

theorem cacheReq_fills (hp : quiet → isObject msg) (p : Address) :
    Fills exact quiet (bodyOwn CachePtr.parts CachePtr.addr) (cacheReqFields lib msg) ⟨p, none⟩
      (Messages.readCommand lib registry .cacheReq (members msg)).isSome := by
  refine .as ?_ (isSome_bind fun _ => isSome_bind fun _ => rfl)
  refine .value (getUUID_gives hp) (.slot (getBlockId_reads hp) (fun _ _ id => ?_) fun _ => .nil)
  exact add_comm _ _

theorem cacheResp_fills (hp : quiet → isObject msg) (p : Address) :
    Fills exact quiet (bodyOwn CachePtr.parts CachePtr.addr) (cacheRespFields lib msg) ⟨p, none⟩
      (Messages.readCommand lib registry .cacheResp (members msg)).isSome := by
  refine .as ?_ (isSome_bind fun _ => isSome_bind fun _ => isSome_bind fun _ => rfl)
  refine .slot (getBlockId_reads hp) (fun _ _ id => ?_) fun _ =>
    .value (getNumber_gives _ hp) (.value (getNumber_gives _ hp) .nil)
  exact add_comm _ _

end Commands

end Razorback.Decode
