import Razorback.JsonBuffer.Texts
import Razorback.Messages.Restored

/-! A serialized message is read again unless it is nested deeper than the tokener goes. -/

namespace Razorback.Messages
open Records Text Uuids JsonBuffer

/-- The text of a message from a constructor is read exactly if it is at most 32 deep and its records are readable. -/
theorem message_read_iff (lib : Libs) (registry : Registry) (message : Message) (text : CString) :
    Built message → serialize lib registry message = some text →
      ((deserialize lib registry message.type text).isSome ↔
        messageNesting lib registry message ≤ tokenerDefaultDepth ∧ Readable message) := by
  intro _ hserialize
  obtain ⟨msg, hmsg, -⟩ := Option.map_eq_some_iff.mp hserialize
  rw [deserialize_written hserialize, ← restoredMessage_isSome_iff hmsg]
  split_ifs with hdepth <;> simp [hdepth]

/-! ### Chains of events -/

def eventChain : Nat → Event
  | 0 => .mk ⟨3, 0, 0⟩ none none 6 none (some [])
  | n + 1 => .mk ⟨3, 0, 0⟩ none (some (eventChain n)) 6 none (some [])

def submissionOf (n : Nat) : MessageBlockSubmission := { iReason := 1, pEvent := eventChain n, storedLocality := 0 }

section Chain

variable (lib : Libs) (registry : Registry)

theorem eventNesting_eventChain (n : Nat) : eventNesting lib registry (eventChain n) = n + 4 := by
  induction n with
  | zero => rfl
  | succ n ih =>
    rw [eventChain, eventNesting_eq]
    simp only [Option.elim, itemsNesting, List.map_nil, List.foldr_nil]
    omega

theorem readableEvent_eventChain (n : Nat) : ReadableEvent (eventChain n) := by
  induction n with
  | zero => exact .mk (by simp) (by simp [ReadableItems]) (by simp)
  | succ n ih =>
    refine .mk ?_ (by simp [ReadableItems]) (by simp)
    rintro parent ⟨rfl⟩
    exact ih

theorem eventJson_eventChain (n : Nat) : (eventJson lib registry (eventChain n)).isSome := by
  induction n with
  | zero => rfl
  | succ n ih =>
    obtain ⟨value, hvalue⟩ := Option.isSome_iff_exists.mp ih
    simp [eventChain, eventJson, hvalue, ntlvListJson, putNTLVItems]

theorem serialize_submissionOf (n : Nat) : ∃ text, serialize lib registry (.blockSubmission (submissionOf n)) = some text := by
  obtain ⟨value, hvalue⟩ := Option.isSome_iff_exists.mp (eventJson_eventChain lib registry n)
  simp [serialize, messageFields, putEvent, submissionOf, hvalue]

end Chain

theorem built_submissionOf (n : Nat) : Built (.blockSubmission (submissionOf n)) :=
  .blockSubmission (show blockSubmissionInitialize (some (eventChain n)) 1 0 = some (submissionOf n) from rfl)

/-- Twenty-eight events can be read, -/
theorem message_read_chain :
    ∃ text, serialize textLibs stringRegistry (.blockSubmission (submissionOf 27)) = some text ∧
      (deserialize textLibs stringRegistry .blockSubmission text).isSome := by
  obtain ⟨text, htext⟩ := serialize_submissionOf textLibs stringRegistry 27
  have hdepth : messageNesting textLibs stringRegistry (.blockSubmission (submissionOf 27)) ≤ tokenerDefaultDepth := by
    rw [messageNesting, submissionOf, eventNesting_eventChain]
    decide
  exact ⟨text, htext, (message_read_iff textLibs stringRegistry _ text (built_submissionOf 27) htext).mpr
    ⟨hdepth, readableEvent_eventChain 27⟩⟩

/-- and one more makes a message that is sent but not read. -/
theorem deep_chain_not_read :
    Built (.blockSubmission (submissionOf 28)) ∧ Readable (.blockSubmission (submissionOf 28)) ∧
      ∃ text, serialize textLibs stringRegistry (.blockSubmission (submissionOf 28)) = some text ∧
        deserialize textLibs stringRegistry .blockSubmission text = none := by
  obtain ⟨text, htext⟩ := serialize_submissionOf textLibs stringRegistry 28
  have hdepth : ¬ messageNesting textLibs stringRegistry (.blockSubmission (submissionOf 28)) ≤ tokenerDefaultDepth := by
    rw [messageNesting, submissionOf, eventNesting_eventChain]
    decide
  have hread := deserialize_written htext
  rw [if_neg hdepth] at hread
  exact ⟨built_submissionOf 28, readableEvent_eventChain 28, text, htext, hread⟩

end Razorback.Messages
