import Razorback.Decode.Bodies
import Razorback.Messages.Restored

/-! A delivery from its arrival to its end: when everything that was allocated for it is released once, and when no call
made for it is a fault. -/

namespace Razorback.Decode
open Records Text Uuids Heap Option
open JsonBuffer (Libs textLibs stringRegistry sampleBlockId sampleItems putUUID putUint32 putEventId)
open CommandAndControl (CommandType)
open Messages (BodyCodec DeliveredEntry MessageHandler messageSetup messageInit)
open Json (Fields)
open Partial (isSome_bind)

def nested : BodyCodec → Bool
  | .data _ | .judgment | .alertChild => true
  | _ => false

section Conditions

variable (lib : Libs) (registry : Registry) (codec : BodyCodec) (text : CString)

def DataTypesArray : Prop :=
  codec = .command .registrationRequest → ∀ value, lib.tokenerParse text = some value →
    ∀ types, Json.get (members value) "Data_Types" = some types → ∃ items, types = .array items

/-- No error message, no block with a parent that can be read, no registration request whose data types cannot be
read. -/
structure Balanced : Prop where
  noError : codec ≠ .command .error
  parentFree : nested codec → ∀ value, lib.tokenerParse text = some value → ParentFree lib registry (members value)
  dataTypes : codec = .command .registrationRequest → ∀ value, lib.tokenerParse text = some value →
    (Messages.getDataTypes lib (members value)).isSome

/-- The body is an object, its blocks have ids, its binary values have bytes. -/
structure WellTyped : Prop where
  object : codec ≠ .empty → ∀ value, lib.tokenerParse text = some value → value ≠ .null → isObject value
  tame : nested codec → ∀ value, lib.tokenerParse text = some value → Tame lib (members value)
  dataTypes : DataTypesArray lib codec text

end Conditions

/-! ### Handlers -/

section Handlers

variable {exact quiet : Prop} {lib : Libs} {registry : Registry} {codec : BodyCodec} {text : CString}

theorem Balanced.dataTypesArray (h : Balanced lib registry codec text) : DataTypesArray lib codec text := by
  intro hcodec value hvalue types htypes
  have hread := h.dataTypes hcodec value hvalue
  unfold Messages.getDataTypes at hread
  rw [htypes] at hread
  cases types with
  | array items => exact ⟨items, rfl⟩
  | _ => simp at hread

theorem isObject_of_wellTyped (htyped : quiet → WellTyped lib codec text) (hcodec : codec ≠ .empty) (value : Json)
    (hvalue : lib.tokenerParse text = some value) (hnull : value ≠ .null) (hquiet : quiet) : isObject value :=
  (htyped hquiet).object hcodec value hvalue hnull

theorem fit_of_nested (hbalanced : exact → Balanced lib registry codec text) (htyped : quiet → WellTyped lib codec text)
    (hcodec : nested codec) (value : Json) (hvalue : lib.tokenerParse text = some value) (hnull : value ≠ .null) :
    Fit exact quiet lib registry value where
  object := isObject_of_wellTyped htyped (fun hempty => by simp [hempty, nested] at hcodec) value hvalue hnull
  parentFree hexact := (hbalanced hexact).parentFree hcodec value hvalue
  tame hquiet := (htyped hquiet).tame hcodec value hvalue

theorem dataHandler_accounted {type : Messages.MessageType} (hbalanced : exact → Balanced lib registry (.data type) text)
    (htyped : quiet → WellTyped lib (.data type) text) :
    Accounted exact quiet (dataHandler lib registry type) text
      (Messages.deserializeBody lib registry (.data type) text).isSome := by
  have hfit := fit_of_nested hbalanced htyped rfl
  rw [Messages.deserializeBody, isSome_map]
  cases type with
  | blockSubmission =>
    exact bodyHandler_accounted hfit (fun s => .unlessNull eventDestroy_frees s.pEvent) blockSubmission_fills
  | inspection =>
    exact bodyHandler_accounted hfit inspectionSubmissionDestroy_frees inspectionSubmission_fills
  | alertPrimary =>
    exact bodyHandler_accounted hfit alertPrimaryDestroy_frees alertPrimary_fills
  | outputEvent =>
    exact bodyHandler_accounted hfit outputEventDestroy_frees outputEvent_fills

theorem error_accounted (hloose : ¬ exact) (hp : ∀ value, lib.tokenerParse text = some value → value ≠ .null →
      quiet → isObject value) :
    Accounted exact quiet (commandHandler lib registry .error) text
      (Messages.readText lib (Messages.readCommand lib registry .error) text).isSome := by
  refine ⟨bodyOwn TextPtr.parts TextPtr.addr, deserializeFields_meets (fun p => zero_add _) rfl
    fun value p hvalue hnull => (text_fills (hp value hvalue hnull) p).as (isSome_bind fun _ => rfl), fun message body => ?_⟩
  -- the message itself stays: the account is not exact
  have hbody : Frees exact quiet (body.elim 0 (bodyOwn TextPtr.parts TextPtr.addr)) (errorDestroy message body) := by
    cases body with
    | none => exact .nothing
    | some s => exact (Frees.unlessNull free_frees s.text).andThen (free_frees s.addr)
  exact hbody.mono (fun hexact => absurd hexact hloose) (fun _ _ _ => rfl) fun _ h => h

theorem commandHandler_accounted (harray : DataTypesArray lib (.command kind) text)
    (hbalanced : exact → Balanced lib registry (.command kind) text) (htyped : quiet → WellTyped lib (.command kind) text) :
    Accounted exact quiet (commandHandler lib registry kind) text
      (Messages.deserializeBody lib registry (.command kind) text).isSome := by
  have hp := isObject_of_wellTyped htyped nofun
  rw [Messages.deserializeBody, isSome_map]
  cases kind with
  | hello =>
    exact bodyHandler_accounted hp (fun s => .unlessNull (listDestroy_frees free_frees) s.addressList) hello_fills
  | registrationRequest =>
    exact bodyHandler_accounted (fun value hvalue hnull => And.intro hvalue (hp value hvalue hnull))
      (fun s => .unlessNull free_frees s.pDataTypeList) fun h => registrationRequest_fills h.2 (harray rfl _ h.1)
        fun hexact => (hbalanced hexact).dataTypes rfl _ h.1
  | configurationUpdate =>
    exact bodyHandler_accounted hp configUpdateDestroy_frees configUpdate_fills
  | configurationAck =>
    exact bodyHandler_accounted hp (fun _ => .nothing) configAck_fills
  | error => exact error_accounted (fun hexact => (hbalanced hexact).noError rfl) hp
  | terminate =>
    exact bodyHandler_accounted hp (fun s => .unlessNull free_frees s.text)
      fun h p => (text_fills h p).as (isSome_bind fun _ => rfl)
  | cacheReq =>
    exact bodyHandler_accounted hp (fun s => .unlessNull blockIdDestroy_frees s.pId) cacheReq_fills
  | cacheResp =>
    exact bodyHandler_accounted hp (fun s => .unlessNull blockIdDestroy_frees s.pId) cacheResp_fills

theorem handlerOf_accounted (harray : DataTypesArray lib codec text) (hbalanced : exact → Balanced lib registry codec text)
    (htyped : quiet → WellTyped lib codec text) :
    Accounted exact quiet (handlerOf lib registry codec) text (Messages.deserializeBody lib registry codec text).isSome := by
  cases codec with
  | data type => exact dataHandler_accounted hbalanced htyped
  | judgment =>
    rw [Messages.deserializeBody, isSome_map]
    exact bodyHandler_accounted (fit_of_nested hbalanced htyped rfl) (fun s => .unlessNull judgmentDestroy_frees s.pJudgment) judgmentSubmission_fills
  | alertChild =>
    rw [Messages.deserializeBody, isSome_map]
    exact bodyHandler_accounted (fit_of_nested hbalanced htyped rfl) alertChildDestroy_frees alertChild_fills
  | outputInspection =>
    rw [Messages.deserializeBody, isSome_map]
    exact bodyHandler_accounted (isObject_of_wellTyped htyped nofun) outputInspectionDestroy_frees outputInspection_fills
  | command kind => exact commandHandler_accounted harray hbalanced htyped
  | empty =>
    refine ⟨fun _ => 0, .answer rfl rfl, fun message body => ?_⟩
    refine .holding (messageDestroy_frees message none) ?_
    cases body <;> simp

end Handlers

/-! ### Deliveries -/

section Deliveries

variable {exact quiet : Prop} {handler : BodyHandler} {text : CString} {found : Bool}

theorem consume_meets (h : Accounted exact quiet handler text found) (autoAck : Bool) (entries : List DeliveredEntry) :
    Meets exact quiet 0 (consume handler autoAck entries text) (fun _ => 0) (· = settle autoAck found) := by
  obtain ⟨own, hdeserialize, hdestroy⟩ := h
  have hreceived : Meets exact quiet 0 (queueGetEx handler autoAck entries text)
      (fun r => r.2.elim 0 fun received => received.1.own + received.2.elim 0 own) (·.1 = settle autoAck found) := by
    refine (receiveMessage_meets autoAck entries).bind fun message _ => .bind_beside hdeserialize fun r hr => ?_
    obtain ⟨decoded, body⟩ := r
    obtain rfl : decoded = found := hr
    refine .holding ?_ (add_comm _ _)
    cases decoded with
    | true => exact .answer rfl rfl
    | false => exact (hdestroy message body).lastly (.answer rfl rfl)
  refine hreceived.bind fun r hr => ?_
  obtain ⟨settlement, _ | ⟨message, body⟩⟩ := r
  · exact .answer rfl hr
  · exact (hdestroy message body).lastly (.answer rfl hr)

end Deliveries

def bodyOf (msg : Fields) : Bytes := (Messages.objectText textLibs msg).bytes

def submission (block : Block) : Messages.Message :=
  .blockSubmission { iReason := 0, pEvent := .mk ⟨3, 0, 0⟩ none none 6 (some block) (some []), storedLocality := 1 }

def submissionFields (block : Block) : Fields :=
  (Messages.messageFields textLibs stringRegistry (submission block)).getD []

def plainBlock : Block := .mk sampleBlockId none none (some sampleItems)

def childBlock : Block := .mk sampleBlockId none (some (.mk sampleBlockId none none none)) none

def registration (types : Json) : Fields :=
  Json.add (putUUID textLibs (putUUID textLibs [] "Nugget_Type" 1) "App_Type" 2) "Data_Types" types

def delivered (type : UInt32) (body : Bytes) : Outcome Fault Settlement :=
  delivery textLibs stringRegistry type true [] body 0

theorem submission_parsed :
    textLibs.tokenerParse (cString (bodyOf (submissionFields plainBlock))) =
      some (.object (submissionFields plainBlock)) := by
  obtain ⟨msg, hmsg⟩ : ∃ msg, Messages.messageFields textLibs stringRegistry (submission plainBlock) = some msg :=
    isSome_iff_exists.mp (by decide)
  have hfields : submissionFields plainBlock = msg := by rw [submissionFields, hmsg, getD_some]
  have hshape := Messages.messageFields_shape hmsg
  have hdepth : (Json.object (submissionFields plainBlock)).depth ≤ JsonBuffer.tokenerDefaultDepth := by decide
  rw [hfields] at hdepth ⊢
  rw [bodyOf, cString_bytes, Messages.objectText, textLibs.tokenerParse_text .spaced hshape.wellFormed, if_pos hdepth]

theorem submission_balanced :
    Balanced textLibs stringRegistry (.data .blockSubmission) (cString (bodyOf (submissionFields plainBlock))) where
  noError := by simp
  parentFree _ value hvalue := by
    obtain rfl := some.inj (submission_parsed.symm.trans hvalue)
    exact .of_objects (by decide)
  dataTypes := by simp

theorem submission_wellTyped :
    WellTyped textLibs (.data .blockSubmission) (cString (bodyOf (submissionFields plainBlock))) where
  object _ value hvalue _ := by
    obtain rfl := some.inj (submission_parsed.symm.trans hvalue)
    rfl
  tame _ value hvalue := by
    obtain rfl := some.inj (submission_parsed.symm.trans hvalue)
    exact .of_objects (by decide) (by decide)
  dataTypes := by simp [DataTypesArray]

def bareBlock : Fields :=
  Json.add (putUint32 [] "Reason" 0) "Event"
    (.object (Json.add (putEventId textLibs [] "Id" ⟨3, 0, 0⟩) "Block" (.object [])))

def emptyValue : Fields :=
  Json.add (putEventId textLibs (putUint32 [] "Reason" 0) "Event_ID" ⟨3, 0, 0⟩) "Event_Metadata"
    (.array [.object (Json.add (putUUID textLibs (putUUID textLibs [] "Name" 1) "Type" 2) "Bin_Value" (.string []))])

end Razorback.Decode
