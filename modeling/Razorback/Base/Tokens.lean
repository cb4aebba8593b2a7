import Razorback.Base.Runs

/-! Tokens that are issued once and spent at most once. Events of a trace issue or
spend a token; an account lists the tokens that can still be spent. Tokens may be
passed around or lost, but an account in order makes no token be spent twice, or
unissued. -/

namespace Razorback.Tokens
open List

variable {ε α : Type} {issue spend : ε → Option α} {es : List ε} {live live' : List α} {e : ε} {a : α}

def Sound (issue spend : ε → Option α) (es : List ε) : Prop :=
  ∀ before e after a, es = before ++ e :: after → spend e = some a →
    (∃ e' ∈ before, issue e' = some a) ∧ ∀ e' ∈ before, spend e' ≠ some a

structure Account (issue spend : ε → Option α) (es : List ε) (live : List α) : Prop where
  sound : Sound issue spend es
  nodup : live.Nodup
  issued : ∀ a ∈ live, ∃ e ∈ es, issue e = some a
  unspent : ∀ a ∈ live, ∀ e ∈ es, spend e ≠ some a

theorem account_nil : Account issue spend [] [] :=
  ⟨fun before e after a he => by simp at he, nodup_nil, (fun _ ha => nomatch ha),
    fun _ ha => nomatch ha⟩

theorem Account.subperm (h : Account issue spend es live) (hsub : live'.Subperm live) :
    Account issue spend es live' := by
  obtain ⟨between, hperm, hsublist⟩ := hsub
  refine ⟨h.sound, hperm.nodup (hsublist.nodup h.nodup), fun a ha => ?_, fun a ha => ?_⟩
  · exact h.issued a (hsublist.subset (hperm.mem_iff.mpr ha))
  · exact h.unspent a (hsublist.subset (hperm.mem_iff.mpr ha))

theorem Account.perm (h : Account issue spend es live) (hperm : live.Perm live') :
    Account issue spend es live' := h.subperm hperm.symm.subperm

theorem Account.drop (h : Account issue spend es (a :: live)) : Account issue spend es live :=
  h.subperm (subperm_cons_self)

theorem Sound.snoc (h : Sound issue spend es)
    (he : ∀ a, spend e = some a → (∃ e' ∈ es, issue e' = some a) ∧ ∀ e' ∈ es, spend e' ≠ some a) :
    Sound issue spend (es ++ [e]) := by
  intro before e' after a heq hspend
  rcases Runs.snoc_eq_append_cons heq with ⟨_, rfl, rfl⟩ | ⟨after', _, hes⟩
  · exact he a hspend
  · exact h before e' after' a hes hspend

theorem Sound.unique (h : Sound issue spend es) {e' : ε} (he : e ∈ es) (he' : e' ∈ es) (hspend : spend e = some a)
    (hspend' : spend e' = some a) : e = e' := by
  obtain ⟨before, after, rfl⟩ := append_of_mem he
  rcases mem_append.mp he' with hbefore | hafter
  · exact absurd hspend' ((h before e after a rfl hspend).2 e' hbefore)
  · rcases mem_cons.mp hafter with rfl | hafter
    · rfl
    · obtain ⟨mid, last, rfl⟩ := append_of_mem hafter
      have hlater := (h (before ++ e :: mid) e' last a (by simp) hspend').2 e (by simp)
      exact absurd hspend hlater

theorem Account.other (h : Account issue spend es live) (hspend : spend e = none) :
    Account issue spend (es ++ [e]) live := by
  refine ⟨h.sound.snoc fun a ha => absurd (hspend.symm.trans ha) nofun, h.nodup, fun a ha => ?_, fun a ha e' he' => ?_⟩
  · obtain ⟨e', he', hissued⟩ := h.issued a ha
    exact ⟨e', mem_append_left _ he', hissued⟩
  · rcases mem_append.mp he' with he' | he'
    · exact h.unspent a ha e' he'
    · rw [mem_singleton.mp he', hspend]
      exact nofun

theorem Account.issue_token (h : Account issue spend es live) (hissue : issue e = some a)
    (hspend : spend e = none) (hfresh : ∀ e' ∈ es, issue e' ≠ some a) :
    Account issue spend (es ++ [e]) (a :: live) := by
  -- a token that was spent was issued, so a fresh one is unspent
  have hunspent : ∀ e' ∈ es, spend e' ≠ some a := by
    intro e' he' hspent
    obtain ⟨before, after, rfl⟩ := append_of_mem he'
    obtain ⟨⟨e'', he'', hissued⟩, _⟩ := h.sound before e' after a rfl hspent
    exact hfresh e'' (mem_append_left _ he'') hissued
  have hnone : ∀ b, spend e ≠ some b := fun b hb => nomatch hspend.symm.trans hb
  refine ⟨h.sound.snoc fun b hb => absurd hb (hnone b), nodup_cons.mpr ⟨fun ha => ?_, h.nodup⟩,
    fun b hb => ?_, fun b hb e' he' => ?_⟩
  · obtain ⟨e', he', hissued⟩ := h.issued a ha
    exact hfresh e' he' hissued
  · rcases mem_cons.mp hb with rfl | hb
    · exact ⟨e, mem_append_right _ (mem_singleton_self e), hissue⟩
    · obtain ⟨e', he', hissued⟩ := h.issued b hb
      exact ⟨e', mem_append_left _ he', hissued⟩
  · rcases mem_append.mp he' with he' | he'
    · rcases mem_cons.mp hb with rfl | hb
      · exact hunspent e' he'
      · exact h.unspent b hb e' he'
    · rw [mem_singleton.mp he']
      exact hnone b

theorem Account.spend_token (h : Account issue spend es (a :: live)) (hspend : spend e = some a) :
    Account issue spend (es ++ [e]) live := by
  obtain ⟨hout, hnodup⟩ := nodup_cons.mp h.nodup
  refine ⟨h.sound.snoc fun b hb => ?_, hnodup, fun b hb => ?_, fun b hb e' he' => ?_⟩
  · obtain rfl := Option.some.inj (hspend.symm.trans hb)
    exact ⟨h.issued a mem_cons_self, h.unspent a mem_cons_self⟩
  · obtain ⟨e', he', hissued⟩ := h.issued b (mem_cons_of_mem a hb)
    exact ⟨e', mem_append_left _ he', hissued⟩
  · rcases mem_append.mp he' with he' | he'
    · exact h.unspent b (mem_cons_of_mem a hb) e' he'
    · rw [mem_singleton.mp he', hspend]
      intro heq
      exact hout (Option.some.inj heq ▸ hb)

end Razorback.Tokens
