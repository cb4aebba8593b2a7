import Razorback.CommandAndControl.Defs

/-! Which contexts a broadcast command reaches. `List_ForEach` ends its pass when
the dispatcher returns 1. A failed hook makes it return 1, and so does a
successful cache clear. -/

namespace Razorback.CommandAndControl
open Records Uuids
open Razorback.Lists (Seq EachCode)

section
variable {σ : Type} {hooks : Hooks σ} {type : CommandType} {c : Context} {contexts : List Context}
  {p : Process σ}

def handles (hooks : Hooks σ) (type : CommandType) (c : Context) : Bool :=
  match hooks c with
  | none => false
  | some commandHooks => type = .clear || (commandHooks type).isSome

def everyHandler (hooks : Hooks σ) (type : CommandType) (contexts : List Context) :
    List (Context × CommandType) :=
  (contexts.filter (handles hooks type)).map fun c => (c, type)

def GoesOn (hooks : Hooks σ) (type : CommandType) (c : Context) (p : Process σ) : Prop :=
  ∃ commandHooks, hooks c = some commandHooks ∧
    if type = .clear then (processCacheClearMessage c p.world).1 = false
    else ∀ hook, commandHooks type = some hook → (hook c p.message p.world).1 = true

def dispatched (hooks : Hooks σ) (c : Context) (p : Process σ) : Process σ :=
  (forEachContextWrapper (dispatchCommand hooks) c p).2

def PassesOn (hooks : Hooks σ) (type : CommandType) : List Context → Process σ → Prop
  | [], _ => True
  | c :: rest, p =>
    (rest.any (handles hooks type) = true → GoesOn hooks type c p) ∧
      PassesOn hooks type rest (dispatched hooks c p)

theorem pass_goes_on (h : (forEachContextWrapper (dispatchCommand hooks) c p).1 = .ok) (rest : List Context) :
    (forEachContext (c :: rest) (dispatchCommand hooks) p).2 =
      (forEachContext rest (dispatchCommand hooks) (dispatched hooks c p)).2 := by
  simp only [forEachContext, Seq.visit, dispatched]
  split <;> simp_all

theorem pass_ends (h : (forEachContextWrapper (dispatchCommand hooks) c p).1 = .error) (rest : List Context) :
    (forEachContext (c :: rest) (dispatchCommand hooks) p).2 = dispatched hooks c p := by
  simp only [forEachContext, Seq.visit, dispatched]
  split <;> simp_all

theorem everyHandler_cons (c : Context) (contexts : List Context) :
    everyHandler hooks type (c :: contexts) = everyHandler hooks type [c] ++ everyHandler hooks type contexts := by
  rw [everyHandler, List.filter_cons]
  split <;> simp [everyHandler, *]

theorem everyHandler_eq_nil : everyHandler hooks type contexts = [] ↔ contexts.any (handles hooks type) = false := by
  simp [everyHandler]

theorem dispatch_spec (hooks : Hooks σ) (ht : commandType p.message.type = some type) (c : Context) :
    (GoesOn hooks type c p ∧ (forEachContextWrapper (dispatchCommand hooks) c p).1 = .ok ∨
        ¬GoesOn hooks type c p ∧ (forEachContextWrapper (dispatchCommand hooks) c p).1 = .error) ∧
      (dispatched hooks c p).called = p.called ++ everyHandler hooks type [c] ∧
      (dispatched hooks c p).message.type = p.message.type := by
  cases hc : hooks c with
  | none =>
    simp [dispatched, forEachContextWrapper, dispatchCommand, hc, everyHandler, handles, GoesOn, listEachError,
      eachCode]
  | some commandHooks =>
    by_cases hclear : type = .clear
    · cases hok : (processCacheClearMessage c p.world).1 <;>
        simp [dispatched, forEachContextWrapper, dispatchCommand, hc, ht, hclear, everyHandler, handles, GoesOn, hok,
          Process.after, eachCode]
    · cases hhook : commandHooks type with
      | none =>
        simp [dispatched, forEachContextWrapper, dispatchCommand, hc, ht, hclear, hhook, everyHandler, handles, GoesOn,
          listEachOk, eachCode]
      | some hook =>
        cases hok : (hook c p.message p.world).1 <;>
          simp [dispatched, forEachContextWrapper, dispatchCommand, hc, ht, hclear, hhook, hok, everyHandler, handles,
            GoesOn, Process.after, listEachOk, listEachError, eachCode]

theorem passesOn_of_none (h : contexts.any (handles hooks type) = false) : PassesOn hooks type contexts p := by
  induction contexts generalizing p with
  | nil => trivial
  | cons c rest ih =>
    rw [List.any_cons, Bool.or_eq_false_iff] at h
    exact ⟨fun hrest => absurd hrest (by rw [h.2]; decide), ih h.2⟩

theorem pass_called (ht : commandType p.message.type = some type) (contexts : List Context) :
    (forEachContext contexts (dispatchCommand hooks) p).2.called = p.called ++ everyHandler hooks type contexts ↔
      PassesOn hooks type contexts p := by
  induction contexts generalizing p with
  | nil => simp [forEachContext, Seq.visit, everyHandler, PassesOn]
  | cons c rest ih =>
    obtain ⟨hcode, hcalled, htype⟩ := dispatch_spec hooks ht c
    rw [everyHandler_cons, ← List.append_assoc, ← hcalled]
    rcases hcode with ⟨hon, hcode⟩ | ⟨hoff, hcode⟩
    · rw [pass_goes_on hcode rest, ih (htype ▸ ht)]
      exact ⟨fun hrest => ⟨fun _ => hon, hrest⟩, fun h => h.2⟩
    · rw [pass_ends hcode rest, List.self_eq_append_right, everyHandler_eq_nil]
      constructor
      · intro hnone
        exact ⟨fun hrest => absurd hrest (by rw [hnone]; decide), passesOn_of_none hnone⟩
      · intro h
        exact Bool.eq_false_iff.mpr fun hrest => hoff (h.1 hrest)

/-- A broadcast from elsewhere calls the handler of each context once and in the
order of the list exactly when each dispatch before the last handler lets the
pass go on. -/
theorem broadcast_called_iff (hooks : Hooks σ) (contexts : List Context) (p : Process σ) {source : Uuid}
    (hnuggets : getNuggets p.message = some (source, 0)) (hsource : lookupContext contexts source = none)
    (ht : commandType p.message.type = some type) :
    (handleMessage hooks contexts p).called = p.called ++ everyHandler hooks type contexts ↔
      PassesOn hooks type contexts p := by
  rw [← pass_called ht contexts]
  simp only [handleMessage, hnuggets, hsource, if_true]

end

def nuggetTypes : Registry
  | .nuggetType => [⟨0x1117de3c6fe8429184ae36cdf2f91017, nuggetTypeDispatcher, some "Message Dispatcher Nugget"⟩]
  | _ => []

def collector : Context := ⟨1, 1, 0xc38b113a27fd417cb9faf3aa0af5cb53, 0, contextFlagStandAlone⟩

def inspector : Context := ⟨2, 2, 0xd95aee7291864236bf238ff77dac630b, 0, 0⟩

def broadcast (type : CommandType) : Process Unit :=
  ⟨collector, ⟨type.code, some 7, some 0, 0, [], [], []⟩, ⟨nuggetTypes, 0, ()⟩, []⟩

def succeeding : Hooks Unit := fun _ => some fun _ => some fun _ message world => (true, message.configuration, world)

theorem broadcast_called_pause :
    PassesOn succeeding .pause [inspector, collector] (broadcast .pause) ∧
      (handleMessage succeeding [inspector, collector] (broadcast .pause)).called =
        (broadcast .pause).called ++ everyHandler succeeding .pause [inspector, collector] := by
  have hpass : PassesOn succeeding .pause [inspector, collector] (broadcast .pause) :=
    ⟨fun _ => ⟨_, rfl, fun _ hhook => Option.some.inj hhook ▸ rfl⟩, (fun h => nomatch h), trivial⟩
  exact ⟨hpass, (broadcast_called_iff succeeding _ _ (show _ = some (7, 0) from rfl) (by decide) (by decide)).mpr
    hpass⟩

/-- Every handler would succeed, but only the first one is called. -/
theorem clear_reaches_first_only :
    (handleMessage succeeding [inspector, collector] (broadcast .clear)).called ≠
      everyHandler succeeding .clear [inspector, collector] := by
  decide

end Razorback.CommandAndControl
