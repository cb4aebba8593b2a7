import Razorback.CommandAndControl.DefaultHooks
import Razorback.CommandAndControl.Broadcast

/-! The lists of named UUIDs after a configuration update. The default hook moves
the lists out of the message, so a second dispatch of the same message installs
empty ones. -/

namespace Razorback.CommandAndControl
open Records Uuids
open Razorback.Lists (Seq EachCode)

/-- The process-wide lists hold the entries of the update. -/
def Installed (update : ConfigurationUpdate) (registry : Registry) : Prop :=
  registry .ntlvType = update.ntlvTypes ∧ registry .ntlvName = update.ntlvNames ∧
    registry .dataType = update.dataTypes

def recipients (contexts : List Context) (message : Message) : List Context :=
  match getNuggets message with
  | none => []
  | some (source, dest) =>
    if dest = 0 then
      if (lookupContext contexts source).isSome then [] else contexts
    else (lookupContext contexts dest).toList

def emptyUpdate : ConfigurationUpdate := ⟨[], [], []⟩

theorem installed_inj
    (h : Installed update registry) (h' : Installed update' registry) : update = update' := by
  obtain ⟨htypes, hnames, hdata⟩ := h
  obtain ⟨htypes', hnames', hdata'⟩ := h'
  cases update
  simp_all

variable {p : Process Shared} {contexts : List Context}

def allDefault : Hooks Shared := fun _ => some defaultHooks

section
variable (ht : commandType p.message.type = some .configUpdate)
include ht

theorem dispatched_update (c : Context) :
    (forEachContextWrapper (dispatchCommand allDefault) c p).1 =
        (if p.world.user.sends p.world.user.attempts then .ok else .error) ∧
      Installed p.message.configuration (dispatched allDefault c p).world.registry ∧
      (dispatched allDefault c p).message.configuration = emptyUpdate ∧
      (dispatched allDefault c p).message.type = p.message.type := by
  have hok : (processConfUpdateMessage c p.message p.world).1 = p.world.user.sends p.world.user.attempts := rfl
  simp only [dispatched, forEachContextWrapper, dispatchCommand, allDefault, ht, defaultHooks, Process.after,
    reduceCtorEq, if_false, hok]
  refine ⟨?_, ⟨rfl, rfl, rfl⟩, rfl, trivial⟩
  split <;> rfl

theorem pass_empty (hempty : p.message.configuration = emptyUpdate) (c : Context) (rest : List Context) :
    Installed emptyUpdate (forEachContext (c :: rest) (dispatchCommand allDefault) p).2.world.registry := by
  induction rest generalizing c p with
  | nil =>
    obtain ⟨hcode, hinstalled, _, _⟩ := dispatched_update ht c
    rw [hempty] at hinstalled
    split at hcode
    · rwa [pass_goes_on hcode]
    · rwa [pass_ends hcode]
  | cons c' rest ih =>
    obtain ⟨hcode, hinstalled, hmoved, htype⟩ := dispatched_update ht c
    rw [hempty] at hinstalled
    split at hcode
    · rw [pass_goes_on hcode]
      exact ih (htype ▸ ht) hmoved c'
    · rwa [pass_ends hcode]

theorem pass_installed_iff (c : Context)
    (rest : List Context) :
    Installed p.message.configuration
        (forEachContext (c :: rest) (dispatchCommand allDefault) p).2.world.registry ↔
      rest = [] ∨ p.world.user.sends p.world.user.attempts = false ∨
        p.message.configuration = emptyUpdate := by
  obtain ⟨hcode, hinstalled, hmoved, htype⟩ := dispatched_update ht c
  cases hsend : p.world.user.sends p.world.user.attempts with
  | false =>
    rw [hsend] at hcode
    rw [pass_ends hcode]
    exact iff_of_true hinstalled (.inr (.inl rfl))
  | true =>
    rw [hsend] at hcode
    rw [pass_goes_on hcode]
    cases rest with
    | nil => exact iff_of_true hinstalled (.inl rfl)
    | cons c' rest =>
      have hgone := pass_empty (htype ▸ ht) hmoved c' rest
      constructor
      · intro h
        exact .inr (.inr (installed_inj h hgone))
      · rintro (h | h | h)
        · cases h
        · cases h
        · rwa [h]

end

/-- After a configuration update, directed or broadcast, the lists hold its
entries exactly when the message went to one context, the first ack could not be
sent, or the update was empty. -/
theorem configUpdate_installed_iff (contexts : List Context) (p : Process Shared)
    (ht : commandType p.message.type = some .configUpdate) (hto : recipients contexts p.message ≠ []) :
    Installed p.message.configuration (handleMessage allDefault contexts p).world.registry ↔
      (recipients contexts p.message).length = 1 ∨ p.world.user.sends p.world.user.attempts = false ∨
        p.message.configuration = emptyUpdate := by
  unfold recipients handleMessage at *
  cases hn : getNuggets p.message with
  | none => simp [hn] at hto
  | some nuggets =>
    obtain ⟨source, dest⟩ := nuggets
    simp only [hn] at hto ⊢
    by_cases hdest : dest = 0
    · cases hsource : lookupContext contexts source with
      | some c => simp [hdest, hsource] at hto
      | none =>
        cases contexts with
        | nil => simp [hdest] at hto
        | cons c rest => simpa [hdest, hsource] using pass_installed_iff ht c rest
    · simp only [if_neg hdest] at hto ⊢
      cases hc : lookupContext contexts dest with
      | none =>
        rw [hc] at hto
        exact absurd rfl hto
      | some c => exact iff_of_true (dispatched_update ht c).2.1 (.inl rfl)

def anUpdate : ConfigurationUpdate := ⟨[⟨1, "STRING", none⟩], [⟨2, "FILENAME", none⟩], [⟨3, "PE_FILE", none⟩]⟩

def configUpdate (dest : Uuid) : Process Shared :=
  ⟨collector, ⟨CommandType.configUpdate.code, some 7, some dest, 0, anUpdate⟩,
    ⟨nuggetTypes, 0, ⟨fun _ => ⟨false, true, 0⟩, fun _ => true, 0, [], 0, [], []⟩⟩, []⟩

theorem configUpdate_installed_directed :
    Installed anUpdate (handleMessage allDefault [collector, inspector] (configUpdate 2)).world.registry :=
  (configUpdate_installed_iff [collector, inspector] (configUpdate 2) (by decide) (by decide)).mpr (.inl (by decide))

/-- A broadcast update that two contexts ack leaves empty lists. -/
theorem broadcast_update_emptied :
    ¬Installed anUpdate (handleMessage allDefault [collector, inspector] (configUpdate 0)).world.registry := by
  intro h
  exact absurd h.1 (by decide)

end Razorback.CommandAndControl
