import Razorback.Transfer.Defs

/-! What a store that reports success has left at the block's path. An attempt
that writes the file offers it the unread part of each chunk in turn; if a write
fails, a proper part of that is left behind, and a later attempt takes the file it
finds for the block. -/

namespace Razorback.Transfer
open Writes List

def Transport.width : Transport → ℕ
  | .file => 32
  | .ssh => 64

namespace BlockPoolData

def offer (width : ℕ) (d : BlockPoolData) : Bytes :=
  match d.chunk with
  | .file content => content.drop d.pos
  | .memory bytes _ _ => bytes.take (BitVec.ofNat width bytes.length).toInt.toNat

/-- All of the chunk is offered: its `FILE` is at the start, or its length is not
negative as a signed integer of `width` bits. -/
def Intact (width : ℕ) (d : BlockPoolData) : Prop :=
  match d.chunk with
  | .file content => d.pos = 0 ∨ content = []
  | .memory bytes _ _ => bytes.length < 2 ^ (width - 1)

end BlockPoolData

theorem toInt_toNat (hn : n < 2 ^ width) :
    (BitVec.ofNat width n).toInt.toNat = if 2 * n < 2 ^ width then n else 0 := by
  rw [BitVec.toInt_eq_toNat_cond, BitVec.toNat_ofNat, Nat.mod_eq_of_lt hn]
  split_ifs
  · exact Int.toNat_natCast n
  · refine Int.toNat_of_nonpos (Int.sub_nonpos_of_le ?_)
    exact_mod_cast Nat.le_of_lt hn

theorem Transport.fits (trans : Transport) (hn : n < 2 ^ 32) :
    n < 2 ^ trans.width ∧ (2 * n < 2 ^ trans.width ↔ n < 2 ^ (trans.width - 1)) := by
  cases trans with
  | file => exact ⟨hn, by simp only [Transport.width]; omega⟩
  | ssh => exact ⟨by simp only [Transport.width]; omega, by simp only [Transport.width]; omega⟩

theorem offer_length (width : ℕ) (d : BlockPoolData) :
    (d.offer width).length ≤ d.chunk.bytes.length := by
  unfold BlockPoolData.offer
  cases d.chunk with
  | file content =>
    rw [length_drop]
    exact Nat.sub_le _ _
  | memory bytes hpos hlen => exact length_take_le' _ _

theorem offer_eq_iff (trans : Transport) (d : BlockPoolData) :
    d.offer trans.width = d.chunk.bytes ↔ d.Intact trans.width := by
  obtain ⟨chunk, pos⟩ := d
  cases chunk with
  | file content =>
    change content.drop pos = content ↔ pos = 0 ∨ content = []
    constructor
    · intro h
      have hlen := congrArg length h
      rw [length_drop] at hlen
      rcases Nat.eq_zero_or_pos pos with hpos | hpos
      · exact .inl hpos
      · exact .inr (length_eq_zero_iff.mp (by omega))
    · rintro (rfl | rfl)
      · rfl
      · exact drop_nil
  | memory bytes hpos hlen =>
    obtain ⟨hfit, hhalf⟩ := trans.fits hlen
    change bytes.take _ = bytes ↔ bytes.length < _
    rw [toInt_toNat hfit, ← hhalf]
    constructor
    · intro h
      by_contra hlong
      rw [if_neg hlong] at h
      exact absurd hpos (by rw [← h]; exact Nat.lt_irrefl 0)
    · intro h
      rw [if_pos h, take_length]

theorem offers_length (width : ℕ) (ds : List BlockPoolData) :
    (ds.flatMap (BlockPoolData.offer width)).length ≤ (contents (ds.map BlockPoolData.chunk)).length := by
  induction ds with
  | nil => exact Nat.le_refl 0
  | cons d ds ih =>
    simp only [contents, map_cons, flatMap_cons, length_append] at ih ⊢
    exact Nat.add_le_add (offer_length width d) ih

theorem offers_eq_iff (trans : Transport) (ds : List BlockPoolData) :
    ds.flatMap (BlockPoolData.offer trans.width) = contents (ds.map BlockPoolData.chunk) ↔
      ∀ d ∈ ds, d.Intact trans.width := by
  induction ds with
  | nil => simp [contents]
  | cons d ds ih =>
    rw [forall_mem_cons, ← ih, ← offer_eq_iff]
    have hrest := offers_length trans.width ds
    have hd := offer_length trans.width d
    simp only [contents, map_cons, flatMap_cons] at hrest ⊢
    constructor
    · intro h
      have hlen := congrArg length h
      rw [length_append, length_append] at hlen
      exact append_inj h (by omega)
    · rintro ⟨hd, hds⟩
      rw [hd, hds]

section
variable {trans : Transport} {s s' : Store} {a : Attempt} {st : TransferStatus}

theorem writeWrap_offered (trans : Transport) (data : Bytes) (fd : Sink UInt8) (h : data.length ≤ 4096) :
    Offered data fd (writeWrap trans.width data fd) := by
  have hlen : data.length < 2 ^ 32 := by omega
  obtain ⟨hfit, hhalf⟩ := trans.fits hlen
  have hpos : data.length < 2 ^ (trans.width - 1) := by
    cases trans <;> simp only [Transport.width] <;> omega
  rw [writeWrap, toInt_toNat hfit, if_pos (hhalf.mpr hpos), take_length]
  exact offered_write data fd

theorem copyLoop_offered
    (hwrap : ∀ data fd, data.length ≤ 4096 → Offered data fd (wrap data fd)) (unread : Bytes)
    (fd : Sink UInt8) :
    Offered unread fd ((copyLoop wrap unread fd).1, (copyLoop wrap unread fd).2.2) := by
  induction unread, fd using copyLoop.induct wrap with
  | case1 fd =>
    rw [copyLoop]
    exact offered_nil fd
  | case2 unread fd hne data fd' hw =>
    have hdata := hwrap data fd (length_take_le _ _)
    rw [copyLoop, if_neg hne]
    rw [hw] at hdata
    simp only [data] at hw
    simp only [hw]
    have happ := hdata.append_failed (unread.drop 4096)
    rwa [take_append_drop] at happ
  | case3 unread fd hne data fd' hw ok n fd'' hrest ih =>
    have hdata := hwrap data fd (length_take_le _ _)
    rw [copyLoop, if_neg hne]
    rw [hw] at hdata
    simp only [data] at hw
    simp only [hw]
    have happ := hdata.append ih
    rwa [take_append_drop] at happ

theorem storeChunk_offered (trans : Transport) (d : BlockPoolData) (fd : Sink UInt8) :
    Offered (d.offer trans.width) fd ((storeChunk (writeWrap trans.width) d fd).1,
        (storeChunk (writeWrap trans.width) d fd).2.2) ∧
      (storeChunk (writeWrap trans.width) d fd).2.1.chunk = d.chunk := by
  obtain ⟨chunk, pos⟩ := d
  cases chunk with
  | file content =>
    have hcopy := copyLoop_offered (writeWrap_offered trans) (content.drop pos) fd
    rcases h : copyLoop (writeWrap trans.width) (content.drop pos) fd with ⟨ok, n, fd'⟩
    rw [h] at hcopy
    cases ok with
    | true =>
      simp only [storeChunk, h]
      exact ⟨hcopy, rfl⟩
    | false =>
      simp only [storeChunk, h]
      exact ⟨hcopy, trivial⟩
  | memory bytes hpos hlen => exact ⟨offered_write _ fd, rfl⟩

theorem storeChunks_offered (trans : Transport) (ds : List BlockPoolData) (fd : Sink UInt8) :
    Offered (ds.flatMap (BlockPoolData.offer trans.width)) fd
        ((storeChunks (writeWrap trans.width) ds fd).1, (storeChunks (writeWrap trans.width) ds fd).2.2) ∧
      (storeChunks (writeWrap trans.width) ds fd).2.1.map BlockPoolData.chunk =
        ds.map BlockPoolData.chunk := by
  induction ds generalizing fd with
  | nil => exact ⟨offered_nil fd, rfl⟩
  | cons d ds ih =>
    obtain ⟨hoffer, hchunk⟩ := storeChunk_offered trans d fd
    rcases h : storeChunk (writeWrap trans.width) d fd with ⟨ok, d', fd'⟩
    rw [h] at hoffer hchunk
    cases ok with
    | false =>
      simp only [storeChunks, h, map_cons]
      exact ⟨hoffer.append_failed _, by rw [hchunk]⟩
    | true =>
      obtain ⟨hrest, hchunks⟩ := ih fd'
      simp only [storeChunks, h, map_cons]
      exact ⟨hoffer.append hrest, by rw [hchunk, hchunks]⟩

/-- The attempt does not take a file it finds for the block. -/
def Fresh (a : Attempt) (s : Store) : Prop := s.path = none ∨ a.readOk = false

inductive Tried (trans : Transport) (a : Attempt) (s : Store) : TransferStatus → Store → Prop
  | failed (st : TransferStatus) (hst : st ≠ .ok) : Tried trans a s st s
  | found (hfound : ¬Fresh a s) : Tried trans a s .ok s
  | wrote (hfresh : Fresh a s) (chunks : List BlockPoolData) (writes : List (Option ℕ))
      (hchunks : chunks.map BlockPoolData.chunk = s.chunks.map BlockPoolData.chunk) :
      Tried trans a s .ok ⟨some (s.chunks.flatMap (BlockPoolData.offer trans.width)), chunks, writes⟩
  | broke (hfresh : Fresh a s) (st : TransferStatus) (hst : st ≠ .ok) (content : Bytes)
      (chunks : List BlockPoolData) (writes : List (Option ℕ))
      (hchunks : chunks.map BlockPoolData.chunk = s.chunks.map BlockPoolData.chunk)
      (hcontent : content.length < (s.chunks.flatMap (BlockPoolData.offer trans.width)).length) :
      Tried trans a s st ⟨some content, chunks, writes⟩

theorem openAndWrite_tried (trans : Transport) (a : Attempt) (s : Store) (hfailed : failed ≠ .ok) :
    Tried trans a s (openAndWrite (writeWrap trans.width) failed a s).1
      (openAndWrite (writeWrap trans.width) failed a s).2 := by
  by_cases hread : s.path.isSome ∧ a.readOk
  · rw [openAndWrite, if_pos hread]
    refine .found ?_
    rintro (hnone | hno)
    · simp [hnone] at hread
    · simp [hno] at hread
  · have hfresh : Fresh a s := by
      cases hpath : s.path with
      | none => exact .inl hpath
      | some content => exact .inr (by simpa [hpath] using hread)
    rw [openAndWrite, if_neg hread]
    cases a.createOk with
    | false => exact .failed failed hfailed
    | true =>
      obtain ⟨hoffer, hchunks⟩ := storeChunks_offered trans s.chunks ⟨[], s.writes⟩
      rcases h : storeChunks (writeWrap trans.width) s.chunks ⟨[], s.writes⟩ with ⟨ok, chunks, fd⟩
      rw [h] at hoffer hchunks
      cases hoffer with
      | all rs => exact .wrote hfresh chunks rs hchunks
      | part out left rs hleft hdata =>
        refine .broke hfresh failed hfailed out chunks rs hchunks ?_
        rw [hdata, length_append]
        have hpos := length_pos_iff.mpr hleft
        omega

theorem store_tried (trans : Transport) (a : Attempt) (s : Store) :
    Tried trans a s (trans.store a s).1 (trans.store a s).2 := by
  have hlocal : Tried trans a s .failLocal s := .failed _ (by decide)
  have hdispatcher : Tried trans a s .failDispatcher s := .failed _ (by decide)
  cases trans with
  | file =>
    simp only [Transport.store, fileStore]
    split_ifs
    · exact hlocal
    · exact hlocal
    · exact hlocal
    · exact openAndWrite_tried .file a s (by decide)
  | ssh =>
    simp only [Transport.store, sshStore]
    split_ifs
    · exact hlocal
    · exact hdispatcher
    · exact hdispatcher
    · exact hlocal
    · exact hdispatcher
    · exact hlocal
    · exact openAndWrite_tried .ssh a s (by decide)

/-- The attempt that returned `TRANSFER_OK` and the state it started from. -/
def deciding (trans : Transport) (attempts : ℕ → Attempt) : ℕ → ℕ → Store → Option (Attempt × Store)
  | 0, _, _ => none
  | fuel + 1, i, s =>
    let (status, s') := trans.store (attempts i) s
    if status = .ok then some (attempts i, s) else deciding trans attempts fuel (i + 1) s'

def Short (cs : List Chunk) (s : Store) : Prop :=
  s.chunks.map BlockPoolData.chunk = cs ∧ ∀ content, s.path = some content →
    content.length < (contents cs).length

theorem Tried.short (h : Tried trans a s st s') (hs : Short cs s) (hst : st ≠ .ok) :
    Short cs s' := by
  cases h with
  | failed => exact hs
  | found | wrote => exact absurd rfl hst
  | broke hfresh _ _ content chunks writes hchunks hcontent =>
    refine ⟨hchunks.trans hs.1, fun content' he => ?_⟩
    obtain rfl := Option.some.inj he
    have hle := offers_length trans.width s.chunks
    rw [hs.1] at hle
    exact Nat.lt_of_lt_of_le hcontent hle

theorem Tried.exact_iff (h : Tried trans a s st s') (hst : st = .ok) (hs : Short cs s) :
    s'.path = some (contents cs) ↔ Fresh a s ∧ ∀ d ∈ s.chunks, d.Intact trans.width := by
  cases h with
  | failed st hne => exact absurd hst hne
  | broke hfresh st hne => exact absurd hst hne
  | found hfound =>
    refine iff_of_false (fun hpath => ?_) fun h => hfound h.1
    exact Nat.lt_irrefl _ (hs.2 _ hpath)
  | wrote hfresh chunks writes hchunks =>
    rw [Option.some_inj, ← hs.1, offers_eq_iff]
    exact (and_iff_right hfresh).symm

theorem deciding_spec (trans : Transport) (attempts : ℕ → Attempt) (fuel i : ℕ)
    (hs : Short cs s) (hst : st ≠ .ok) :
    ((storeLoop trans attempts fuel i st s).1 ≠ .ok ∧ deciding trans attempts fuel i s = none) ∨
      ∃ a s₁, deciding trans attempts fuel i s = some (a, s₁) ∧ Short cs s₁ ∧
        (storeLoop trans attempts fuel i st s).1 = .ok ∧
        Tried trans a s₁ .ok (storeLoop trans attempts fuel i st s).2 := by
  induction fuel generalizing i st s with
  | zero => exact .inl ⟨hst, rfl⟩
  | succ fuel ih =>
    have htried := store_tried trans (attempts i) s
    rcases h : trans.store (attempts i) s with ⟨status, s'⟩
    rw [h] at htried
    simp only [storeLoop, deciding, h]
    by_cases hok : status = .ok
    · subst hok
      exact .inr ⟨attempts i, s, rfl, hs, rfl, htried⟩
    · rw [if_neg hok, if_neg hok]
      exact ih (i + 1) (htried.short hs hok) hok

end

/-- For a block whose path does not exist: a success leaves exactly the block's
bytes there, if and only if the attempt that reported it wrote the file itself,
from chunks that were all intact at its start. -/
theorem stores_block_iff (trans : Transport) (attempts : ℕ → Attempt) (s : Store)
    (hpath : s.path = none) :
    ((transferStore (some trans) attempts s).1 = .ok →
        (transferStore (some trans) attempts s).2.path =
          some (contents (s.chunks.map BlockPoolData.chunk))) ↔
      ∀ a s₁, deciding trans attempts retries 0 s = some (a, s₁) →
        Fresh a s₁ ∧ ∀ d ∈ s₁.chunks, d.Intact trans.width := by
  have hs : Short (s.chunks.map BlockPoolData.chunk) s := ⟨rfl, fun c hc => nomatch hpath.symm.trans hc⟩
  rcases deciding_spec trans attempts retries 0 hs (show TransferStatus.failLocal ≠ .ok by decide) with
    ⟨hne, hnone⟩ | ⟨a, s₁, hsome, hs₁, hok, htried⟩
  · exact iff_of_true (fun h => absurd h hne) fun a s₁ h => nomatch hnone.symm.trans h
  · constructor
    · intro h a' s₁' he
      obtain ⟨rfl, rfl⟩ := Prod.mk.inj (Option.some.inj (hsome.symm.trans he))
      exact (htried.exact_iff rfl hs₁).mp (h hok)
    · exact fun h _ => (htried.exact_iff rfl hs₁).mpr (h a s₁ hsome)

def twoBytes (writes : List (Option ℕ)) : Store :=
  ⟨none, added [.memory [1, 2] (by decide) (by decide)], writes⟩

def smooth : Attempt := ⟨true, true, true, true, true, true, true, true⟩

theorem stores_block_iff_twoBytes :
    ((transferStore (some .ssh) (fun _ => smooth) (twoBytes [some 1, some 1])).1 = .ok →
        (transferStore (some .ssh) (fun _ => smooth) (twoBytes [some 1, some 1])).2.path =
          some (contents ((twoBytes [some 1, some 1]).chunks.map BlockPoolData.chunk))) ↔
      ∀ a s₁, deciding .ssh (fun _ => smooth) retries 0 (twoBytes [some 1, some 1]) = some (a, s₁) →
        Fresh a s₁ ∧ ∀ d ∈ s₁.chunks, d.Intact Transport.ssh.width :=
  stores_block_iff .ssh (fun _ => smooth) (twoBytes [some 1, some 1]) rfl

/-- The second write of the first attempt fails; the second attempt finds the file. -/
theorem partial_file_passes_for_block :
    ¬((transferStore (some .file) (fun _ => smooth) (twoBytes [some 1, none])).1 = .ok →
        (transferStore (some .file) (fun _ => smooth) (twoBytes [some 1, none])).2.path =
          some (contents ((twoBytes [some 1, none]).chunks.map BlockPoolData.chunk))) := by
  decide

end Razorback.Transfer
