import Razorback.Transfer.Http
import Razorback.Transfer.Integrity

/-! Which blocks the HTTP transport sends as they are. `read_callback` reads memory
chunks on through the list but never leaves a file, and it reads on into a file as
if it were memory. A list of chunks gets through whole, for every choice of buffer
sizes, exactly if nothing follows the memory chunks it starts with, or the one file. -/

namespace Razorback.Transfer
open Runs Pull Writes List Nat BlockPoolData

def leading : List Chunk → Bytes
  | .memory bytes _ _ :: cs => bytes ++ leading cs
  | _ => []

def trailing : List Chunk → List Chunk
  | .memory _ _ _ :: cs => trailing cs
  | cs => cs

/-- Memory chunks only, or one file whose size its `iLength` can hold; then at
most empty files. -/
def OneKind : List Chunk → Prop
  | [] => False
  | .file content :: cs => content.length < 2 ^ 32 ∧ contents cs = []
  | cs => contents (trailing cs) = []

theorem contents_eq (cs : List Chunk) : contents cs = leading cs ++ contents (trailing cs) := by
  induction cs with
  | nil => rfl
  | cons c cs ih =>
    cases c with
    | file content => rfl
    | memory bytes hpos hlen =>
      change bytes ++ contents cs = bytes ++ leading cs ++ contents (trailing cs)
      rw [ih, append_assoc]

theorem trailing_starts (cs : List Chunk) (h : contents (trailing cs) ≠ []) :
    ∃ content rest, trailing cs = .file content :: rest := by
  induction cs with
  | nil => exact absurd rfl h
  | cons c cs ih =>
    cases c with
    | file content => exact ⟨content, cs, rfl⟩
    | memory bytes hpos hlen => exact ih h

def Within (bytesRead : ℕ) : List Chunk → Prop
  | .memory bytes _ _ :: _ => bytesRead < bytes.length
  | _ => bytesRead = 0

theorem within_zero (cs : List Chunk) : Within 0 cs := by
  rcases cs with _ | ⟨c, cs⟩
  · rfl
  · cases c with
    | file content => rfl
    | memory bytes hpos hlen => exact hpos

theorem iLength_memory (hpos : 0 < bytes.length) (hlen : bytes.length < 2 ^ 32) :
    (Chunk.memory bytes hpos hlen).iLength = bytes.length := mod_eq_of_lt hlen

section
variable {want pos b : ℕ} {before ds : List BlockPoolData} {out bytes : Bytes} {hpos : 0 < bytes.length}
  {hlen : bytes.length < 2 ^ 32}

theorem memoryLoop_hollow (h : out.length < want) :
    memoryLoop want before (⟨.file [], pos⟩ :: ds) 0 out =
      memoryLoop want (before ++ [⟨.file [], pos⟩]) ds 0 out := by
  rw [memoryLoop, if_pos h]
  simp [Chunk.iLength, Chunk.bytes, memcpy]

theorem memoryLoop_whole (h : out.length < want) (hb : b < bytes.length)
    (hle : bytes.length - b ≤ want - out.length) :
    memoryLoop want before (⟨.memory bytes hpos hlen, pos⟩ :: ds) b out =
      memoryLoop want (before ++ [⟨.memory bytes hpos hlen, pos⟩]) ds 0 (out ++ bytes.drop b) := by
  have hmin : min (want - out.length) (min (bytes.length - b) want) = bytes.length - b := by omega
  have htake : (bytes.drop b).take (bytes.length - b) = bytes.drop b :=
    take_of_length_le (Nat.le_of_eq length_drop)
  rw [memoryLoop, if_pos h, iLength_memory]
  simp only [hmin, memcpy, htake]
  exact if_pos (by omega)

theorem memoryLoop_file (hc : c = .file content) (hne : c.iLength ≠ 0) (h : out.length < want) :
    memoryLoop want before (⟨c, pos⟩ :: ds) 0 out = .error .nullPointer := by
  have hread : min (want - out.length) (min (c.iLength - 0) want) ≠ 0 := by omega
  rw [memoryLoop, if_pos h]
  subst hc
  simp only [memcpy, if_neg hread, error_bind]

/-- What the loop over memory hands out, if it does not come to a byte of a file. -/
structure LoopSpec (want : ℕ) (ds : List BlockPoolData) (b : ℕ) (out : Bytes) (context : StoreContext) :
    Prop where
  within : Within context.bytesRead (context.ahead.map BlockPoolData.chunk)
  left : (leading (context.ahead.map BlockPoolData.chunk)).drop context.bytesRead =
    ((leading (ds.map BlockPoolData.chunk)).drop b).drop (want - out.length)
  hollow : contents (trailing (ds.map BlockPoolData.chunk)) = [] →
    contents (trailing (context.ahead.map BlockPoolData.chunk)) = []
  trailing : want - out.length ≤ (leading (ds.map BlockPoolData.chunk)).length - b →
    trailing (context.ahead.map BlockPoolData.chunk) = trailing (ds.map BlockPoolData.chunk)

theorem leading_drop_memory (hb : b < bytes.length) :
    (leading ((⟨.memory bytes hpos hlen, pos⟩ :: ds : List BlockPoolData).map
        BlockPoolData.chunk)).drop b = bytes.drop b ++ leading (ds.map BlockPoolData.chunk) :=
  drop_append_of_le_length (Nat.le_of_lt hb)

theorem want_past (want b : ℕ) (out bytes : Bytes) :
    want - (out ++ bytes.drop b).length = want - out.length - (bytes.drop b).length := by
  rw [length_append]
  exact sub_add_eq _ _ _

theorem LoopSpec.past_memory (hb : b < bytes.length) (hwhole : bytes.length - b ≤ want - out.length)
    (h : LoopSpec want ds 0 (out ++ bytes.drop b) context) :
    LoopSpec want (⟨.memory bytes hpos hlen, pos⟩ :: ds) b out context := by
  refine ⟨h.within, ?_, h.hollow, fun hle => h.trailing ?_⟩
  · have hnil : (bytes.drop b).drop (want - out.length) = [] :=
      drop_of_length_le (by rw [length_drop]; exact hwhole)
    rw [h.left, leading_drop_memory hb, drop_append, want_past, drop_zero, hnil,
      nil_append]
  · rw [← length_drop, leading_drop_memory hb, length_append] at hle
    rw [want_past]
    omega

theorem LoopSpec.past_file (hlt : out.length < want)
    (hlead : leading (ds.map BlockPoolData.chunk) = [])
    (htrail : contents (Transfer.trailing (ds.map BlockPoolData.chunk)) = [])
    (h : LoopSpec want ds 0 out context) :
    LoopSpec want (⟨.file [], pos⟩ :: ds) 0 out context := by
  refine ⟨h.within, ?_, fun _ => h.hollow htrail, fun hle => ?_⟩
  · rw [h.left, hlead]
    rfl
  · change want - out.length ≤ 0 at hle
    omega

theorem hollow_file (h : contents (trailing ((⟨.file content, pos⟩ :: ds : List BlockPoolData).map
      BlockPoolData.chunk)) = []) :
    content = [] ∧ leading (ds.map BlockPoolData.chunk) = [] ∧
      contents (trailing (ds.map BlockPoolData.chunk)) = [] := by
  obtain ⟨rfl, hrest⟩ : content = [] ∧ contents (ds.map chunk) = [] :=
    append_eq_nil_iff.mp h
  have hsplit := contents_eq (ds.map chunk)
  rw [hrest] at hsplit
  exact ⟨rfl, append_eq_nil_iff.mp hsplit.symm⟩

theorem memoryLoop_spec (want : ℕ) (before : List BlockPoolData) (out : Bytes)
    (hb : Within b (ds.map BlockPoolData.chunk))
    (h : contents (trailing (ds.map BlockPoolData.chunk)) = [] ∨
      want - out.length ≤ (leading (ds.map BlockPoolData.chunk)).length - b) :
    ∃ context, memoryLoop want before ds b out =
        .ok (out ++ ((leading (ds.map BlockPoolData.chunk)).drop b).take (want - out.length), context) ∧
      LoopSpec want ds b out context := by
  induction ds generalizing before b out with
  | nil =>
    refine ⟨⟨before, [], b⟩, ?_, hb, ?_, id, fun _ => rfl⟩
    · simp [memoryLoop, leading]
    · simp [leading]
  | cons d ds ih =>
    obtain ⟨chunk, pos⟩ := d
    rcases Nat.lt_or_ge out.length want with hlt | hfull
    · cases chunk with
      | file content =>
        obtain rfl : b = 0 := hb
        rcases h with h | h
        · obtain ⟨rfl, hlead, htrail⟩ := hollow_file h
          obtain ⟨context, hloop, hspec⟩ := ih (before ++ [⟨.file [], pos⟩]) out
            (within_zero _) (.inl htrail)
          refine ⟨context, ?_, hspec.past_file hlt hlead htrail⟩
          rw [memoryLoop_hollow hlt, hloop, hlead]
          rfl
        · change want - out.length ≤ 0 at h
          omega
      | memory bytes hpos hlen =>
        have hb' : b < bytes.length := hb
        rcases Nat.lt_or_ge (want - out.length) (bytes.length - b) with hpart | hwhole
        · refine ⟨⟨before, ⟨.memory bytes hpos hlen, pos⟩ :: ds, b + (want - out.length)⟩, ?_, ?_, ?_,
            id, fun _ => rfl⟩
          · have hmin : min (want - out.length) (min (bytes.length - b) want) = want - out.length := by omega
            rw [memoryLoop, if_pos hlt, iLength_memory, leading_drop_memory hb', take_append_of_le_length]
            · simp only [hmin]
              exact if_neg (by omega)
            · rw [length_drop]
              omega
          · change b + (want - out.length) < bytes.length
            omega
          · rw [drop_drop]
        · have h' : contents (trailing (ds.map chunk)) = [] ∨
              want - (out ++ bytes.drop b).length ≤
                (leading (ds.map chunk)).length - 0 := by
            refine h.imp id fun h => ?_
            rw [← length_drop, leading_drop_memory hb', length_append] at h
            rw [want_past]
            omega
          obtain ⟨context, hloop, hspec⟩ := ih (before ++ [⟨.memory bytes hpos hlen, pos⟩]) _
            (within_zero _) h'
          refine ⟨context, ?_, hspec.past_memory hb' hwhole⟩
          have htake : (bytes.drop b).take (want - out.length) = bytes.drop b :=
            take_of_length_le (by rw [length_drop]; exact hwhole)
          rw [memoryLoop_whole hlt hb' hwhole, hloop, leading_drop_memory hb', take_append, htake,
            want_past, drop_zero, append_assoc]
    · have hzero : want - out.length = 0 := Nat.sub_eq_zero_of_le hfull
      refine ⟨⟨before, ⟨chunk, pos⟩ :: ds, b⟩, ?_, hb, ?_, id, fun _ => rfl⟩
      · rw [memoryLoop, if_neg (Nat.not_lt.mpr hfull), hzero, take_zero, append_nil]
        rfl
      · rw [hzero, drop_zero]

structure InMemory (context : StoreContext) (left : Bytes) : Prop where
  within : Within context.bytesRead (context.ahead.map BlockPoolData.chunk)
  hollow : contents (trailing (context.ahead.map BlockPoolData.chunk)) = []
  left : left = (leading (context.ahead.map BlockPoolData.chunk)).drop context.bytesRead

theorem readCallback_memory (hk : 0 < k) (h : InMemory context left) :
    ∃ out left' context', readCallback k context = .ok (out, context') ∧ left = out ++ left' ∧
      (out = [] → left = []) ∧ InMemory context' left' := by
  obtain ⟨before, ahead, b⟩ := context
  obtain ⟨hwithin, hhollow, rfl⟩ := h
  rcases ahead with _ | ⟨⟨chunk, pos⟩, ds⟩
  · exact ⟨[], [], _, rfl, by simp [leading], fun _ => by simp [leading], hwithin, hhollow, by simp [leading]⟩
  · cases chunk with
    | file content =>
      obtain rfl : b = 0 := hwithin
      obtain ⟨rfl, hrest⟩ : content = [] ∧ contents (ds.map chunk) = [] :=
        append_eq_nil_iff.mp hhollow
      refine ⟨[], [], ⟨before, ⟨.file [], pos⟩ :: ds, 0⟩, ?_, rfl, fun _ => rfl, rfl, hhollow, rfl⟩
      simp [readCallback]
    | memory bytes hpos hlen =>
      obtain ⟨context', hloop, hspec⟩ := memoryLoop_spec k before [] hwithin (.inl hhollow)
      refine ⟨_, _, context', hloop, (take_append_drop k _).symm, fun hnil => ?_,
        hspec.within, hspec.hollow hhollow, hspec.left.symm⟩
      rw [nil_append, take_eq_nil_iff] at hnil
      exact hnil.resolve_left (Nat.pos_iff_ne_zero.mp hk)

inductive InFile : StoreContext → Bytes → Prop
  | mk (before ds : List BlockPoolData) (content : Bytes) (b : ℕ)
      (hle : b ≤ (Chunk.file content).iLength) :
      InFile ⟨before, ⟨.file content, b⟩ :: ds, b⟩
        ((content.take (Chunk.file content).iLength).drop b)

theorem readCallback_file (hk : 0 < k) (h : InFile context left) :
    ∃ out left' context', readCallback k context = .ok (out, context') ∧ left = out ++ left' ∧
      (out = [] → left = []) ∧ InFile context' left' := by
  obtain ⟨before, ds, content, b, hle⟩ := h
  have hitems : (if b + k > (Chunk.file content).iLength then (Chunk.file content).iLength - b else k) =
      min k ((Chunk.file content).iLength - b) := by
    split_ifs <;> omega
  have hout : (content.drop b).take (min k ((Chunk.file content).iLength - b)) =
      ((content.take (Chunk.file content).iLength).drop b).take k := by
    rw [drop_take, take_take]
  generalize hleft : (content.take (Chunk.file content).iLength).drop b = left at hout
  have hlen : b + (left.take k).length ≤ (Chunk.file content).iLength := by
    have hshort : left.length ≤ (Chunk.file content).iLength - b := by
      rw [← hleft, length_drop, length_take]
      omega
    rw [length_take]
    omega
  have hnext := InFile.mk before ds content (b + (left.take k).length) hlen
  rw [← drop_drop, hleft] at hnext
  refine ⟨left.take k, left.drop (left.take k).length, _, ?_, ?_, fun hnil => ?_, hnext⟩
  · simp only [readCallback, hitems, hout]
  · exact (prefix_iff_eq_append.mp ( take_prefix k left)).symm
  · rw [take_eq_nil_iff] at hnil
    exact hnil.resolve_left (Nat.pos_iff_ne_zero.mp hk)

/-- Whatever the sizes of the buffers, the callback comes to answer 0 and has then
handed out the bytes of all chunks in order. -/
def SendsAll (chunks : List BlockPoolData) : Prop :=
  ∀ sizes : ℕ → ℕ, (∀ i, 0 < sizes i) → ∃ calls chunks',
    httpTryStore sizes calls chunks = .ok (contents (chunks.map BlockPoolData.chunk), true, chunks')

theorem httpTryStore_cons
    (h : pull readCallback sizes calls 0 ⟨[], d.rewindFile :: ds, 0⟩ = .ok (out, done, context)) :
    ∃ chunks, httpTryStore sizes calls (d :: ds) = .ok (out, done, chunks) := by
  obtain ⟨before', ahead', b'⟩ := context
  simp only [httpTryStore, h]
  cases ahead' <;> exact ⟨_, rfl⟩

theorem sendsAll_of_oneKind (h : OneKind (chunks.map BlockPoolData.chunk)) : SendsAll chunks := by
  intro sizes hsizes
  rcases chunks with _ | ⟨⟨chunk, pos⟩, ds⟩
  · exact h.elim
  · cases chunk with
    | file content =>
      obtain ⟨hlen, hrest⟩ : content.length < 2 ^ 32 ∧ contents (ds.map chunk) = [] := h
      have hiLength : (Chunk.file content).iLength = content.length := mod_eq_of_lt hlen
      have hstart := InFile.mk [] ds content 0 (zero_le _)
      obtain ⟨calls, context, hpull⟩ :=
        pull_all (fun i s left hs => readCallback_file (hsizes i) hs) hstart 0
      have hall : (content.take (Chunk.file content).iLength).drop 0 =
          contents ((⟨.file content, pos⟩ :: ds : List BlockPoolData).map chunk) := by
        change _ = content ++ contents (ds.map chunk)
        rw [hiLength, take_length, hrest, append_nil, drop_zero]
      rw [hall] at hpull
      exact ⟨calls, httpTryStore_cons hpull⟩
    | memory bytes hpos hlen =>
      have hstart : InMemory ⟨[], ⟨.memory bytes hpos hlen, pos⟩ :: ds, 0⟩
          (contents ((⟨.memory bytes hpos hlen, pos⟩ :: ds : List BlockPoolData).map
            chunk)) := by
        refine ⟨within_zero _, h, ?_⟩
        rw [contents_eq]
        exact (congrArg _ h).trans (append_nil _)
      obtain ⟨calls, context, hpull⟩ :=
        pull_all (fun i s left hs => readCallback_memory (hsizes i) hs) hstart 0
      exact ⟨calls, httpTryStore_cons hpull⟩

inductive AfterTries (cs : List Chunk) : List BlockPoolData → Prop
  | start : AfterTries cs (added cs)
  | again {chunks chunks' : List BlockPoolData} {sizes : ℕ → ℕ} {calls : ℕ} {out : Bytes} {done : Bool}
      (h : AfterTries cs chunks) (hsizes : ∀ i, 0 < sizes i)
      (htry : httpTryStore sizes calls chunks = .ok (out, done, chunks')) : AfterTries cs chunks'

theorem memoryLoop_chunks (h : memoryLoop want before ds b out = .ok (bytes, context)) :
    context.before ++ context.ahead = before ++ ds := by
  induction ds generalizing before b out with
  | nil =>
    cases h
    rfl
  | cons d ds ih =>
    unfold memoryLoop at h
    split_ifs at h
    · obtain ⟨copied, _, h⟩ := bind_eq_ok.mp h
      split_ifs at h
      · rw [ih h, append_assoc]
        rfl
      · cases h
        rfl
    · cases h
      rfl

theorem readCallback_chunks (h : readCallback k context = .ok (out, context')) :
    (context'.before ++ context'.ahead).map BlockPoolData.chunk =
      (context.before ++ context.ahead).map BlockPoolData.chunk := by
  obtain ⟨before, ahead, b⟩ := context
  rcases ahead with _ | ⟨⟨chunk, pos⟩, ds⟩
  · cases h
    rfl
  · cases chunk with
    | file content =>
      cases h
      simp
    | memory bytes hpos hlen => exact congrArg _ (memoryLoop_chunks h)

theorem chunk_rewindFile (d : BlockPoolData) : d.rewindFile.chunk = d.chunk := by
  obtain ⟨chunk, pos⟩ := d
  cases chunk <;> rfl

theorem httpTryStore_chunks (h : httpTryStore sizes calls chunks = .ok (out, done, chunks')) :
    chunks'.map BlockPoolData.chunk = chunks.map BlockPoolData.chunk := by
  rcases chunks with _ | ⟨d, ds⟩
  · cases h
  · simp only [httpTryStore, bind_eq_ok] at h
    obtain ⟨⟨sent, done', ⟨before', ahead', b'⟩⟩, hpull, h⟩ := h
    have hkept := pull_invariant
      (I := fun c => (c.before ++ c.ahead).map chunk = (d :: ds).map chunk)
      (fun k c out c' hc hread => (readCallback_chunks hread).trans hc)
      (by simp [chunk_rewindFile]) hpull
    cases ahead' with
    | nil =>
      cases h
      simpa using hkept
    | cons d' ds' =>
      cases h
      simpa [chunk_rewindFile] using hkept

theorem AfterTries.chunks {cs : List Chunk} {chunks : List BlockPoolData} (h : AfterTries cs chunks) :
    chunks.map BlockPoolData.chunk = cs := by
  induction h with
  | start => simp [added, Function.comp_def]
  | again h hsizes htry ih => exact (httpTryStore_chunks htry).trans ih

theorem memoryLoop_into_file
    (htrail : trailing (ds.map BlockPoolData.chunk) = .file content :: rest)
    (hne : (Chunk.file content).iLength ≠ 0) (hb : Within b (ds.map BlockPoolData.chunk))
    (hlt : (leading (ds.map BlockPoolData.chunk)).length - b < want - out.length) :
    memoryLoop want before ds b out = .error .nullPointer := by
  induction ds generalizing before b out with
  | nil => cases htrail
  | cons d ds ih =>
    obtain ⟨chunk, pos⟩ := d
    cases chunk with
    | file content' =>
      obtain rfl : b = 0 := hb
      have hcontent : content' = content := by
        cases htrail
        rfl
      subst hcontent
      exact memoryLoop_file rfl hne (by omega)
    | memory bytes hpos hlen =>
      have hb' : b < bytes.length := hb
      change (bytes ++ leading (ds.map chunk)).length - b < want - out.length at hlt
      rw [length_append] at hlt
      rw [memoryLoop_whole (by omega) hb' (by omega)]
      refine ih htrail (within_zero _) ?_
      rw [length_append, length_drop]
      omega

theorem ahead_of_drained (htrail : trailing (ds.map BlockPoolData.chunk) = .file content :: rest)
    (hb : Within b (ds.map BlockPoolData.chunk))
    (hleft : (leading (ds.map BlockPoolData.chunk)).drop b = []) :
    b = 0 ∧ ∃ pos ds', ds = ⟨.file content, pos⟩ :: ds' := by
  rcases ds with _ | ⟨⟨chunk, pos⟩, ds⟩
  · cases htrail
  · cases chunk with
    | file content' =>
      cases htrail
      exact ⟨hb, pos, ds, rfl⟩
    | memory bytes hpos hlen =>
      have hb' : b < bytes.length := hb
      have hle := drop_eq_nil_iff.mp hleft
      change (bytes ++ leading (ds.map chunk)).length ≤ b at hle
      rw [length_append] at hle
      omega

theorem pull_leading (hfirst : readCallback k ⟨[], ds, 0⟩ = memoryLoop k [] ds 0 [])
    (htrail : trailing (ds.map BlockPoolData.chunk) = .file content :: rest)
    (hzero : (Chunk.file content).iLength = 0) (hne : leading (ds.map BlockPoolData.chunk) ≠ [])
    (hk : k = (leading (ds.map BlockPoolData.chunk)).length) :
    ∃ context, pull readCallback (fun _ => k) 2 0 ⟨[], ds, 0⟩ =
      .ok (leading (ds.map BlockPoolData.chunk), true, context) := by
  obtain ⟨⟨before', ahead', b'⟩, hloop, hspec⟩ := memoryLoop_spec k [] []
    (within_zero (ds.map chunk)) (.inr (Nat.le_of_eq hk))
  have hdrained : (leading (ahead'.map chunk)).drop b' = [] := by
    refine hspec.left.trans ?_
    rw [hk]
    simp
  obtain ⟨rfl, pos', ds', rfl⟩ :=
    ahead_of_drained ((hspec.trailing (Nat.le_of_eq hk)).trans htrail) hspec.within hdrained
  have hall : [] ++ ((leading (ds.map chunk)).drop 0).take (k - ([] : Bytes).length) =
      leading (ds.map chunk) := by
    rw [hk]
    simp
  rw [hall] at hloop
  have hsecond : readCallback k ⟨before', ⟨.file content, pos'⟩ :: ds', 0⟩ =
      .ok ([], ⟨before', ⟨.file content, pos'⟩ :: ds', 0⟩) := by
    simp [readCallback, hzero]
  rw [pull_succ_cons (hfirst.trans hloop) hne, pull_succ_nil hsecond]
  simp [Except.map]

theorem pull_of_httpTryStore (h : httpTryStore sizes calls (d :: ds) = .ok (out, done, chunks)) :
    ∃ context, pull readCallback sizes calls 0 ⟨[], d.rewindFile :: ds, 0⟩ = .ok (out, done, context) := by
  simp only [httpTryStore, bind_eq_ok] at h
  obtain ⟨⟨sent, done', ⟨before', ahead', b'⟩⟩, hpull, h⟩ := h
  refine ⟨⟨before', ahead', b'⟩, hpull.trans ?_⟩
  cases ahead' <;> cases h <;> rfl

theorem oneKind_of_sendsAll (h : SendsAll (added cs)) : OneKind cs := by
  have hchunks : (added cs).map chunk = cs := by simp [added, Function.comp_def]
  rcases cs with _ | ⟨c, cs⟩
  · obtain ⟨calls, chunks, htry⟩ := h (fun _ => 1) fun _ => Nat.one_pos
    cases htry
  · cases c with
    | file content =>
      obtain ⟨calls, chunks, htry⟩ := h (fun _ => 1) fun _ => Nat.one_pos
      obtain ⟨context, hpull⟩ := pull_of_httpTryStore htry
      obtain ⟨calls', context', hpull'⟩ := pull_all (fun i s left hs => readCallback_file Nat.one_pos hs)
        (.mk [] (added cs) content 0 (zero_le _)) 0
      have hsent := congrArg length (pull_dry_unique hpull hpull')
      rw [hchunks] at hsent
      change (content ++ contents cs).length = _ at hsent
      rw [drop_zero, length_append, length_take] at hsent
      have hmod : (Chunk.file content).iLength < 2 ^ 32 := mod_lt _ (by decide)
      exact ⟨by omega, length_eq_zero_iff.mp (by omega)⟩
    | memory bytes hpos hlen =>
      by_contra hne
      obtain ⟨content, rest, htrail⟩ := trailing_starts _ hne
      have hlead : leading (.memory bytes hpos hlen :: cs) ≠ [] :=
        append_ne_nil_of_left_ne_nil (length_pos_iff.mp hpos) _
      rw [← hchunks] at htrail hlead
      rcases Nat.eq_zero_or_pos (Chunk.file content).iLength with hzero | hfile
      · obtain ⟨calls, chunks, htry⟩ := h (fun _ => _) fun _ => length_pos_iff.mpr hlead
        obtain ⟨context, hpull⟩ := pull_of_httpTryStore htry
        obtain ⟨context', hpull'⟩ := pull_leading rfl htrail hzero hlead rfl
        have hsent := pull_dry_unique hpull hpull'
        rw [contents_eq, hchunks] at hsent
        exact hne (append_right_eq_self.mp hsent)
      · obtain ⟨calls, chunks, htry⟩ := h (fun _ => _) fun _ => succ_pos
          (leading ((added (.memory bytes hpos hlen :: cs)).map chunk)).length
        obtain ⟨context, hpull⟩ := pull_of_httpTryStore htry
        refine pull_ne_dry (e := .nullPointer) ?_ hpull
        exact memoryLoop_into_file htrail (Nat.pos_iff_ne_zero.mp hfile) (within_zero _)
          (lt_succ_self _)

theorem copyLoop_unfailing
    (hwrap : ∀ data fd, none ∉ fd.results → (wrap data fd).1 ∧ none ∉ (wrap data fd).2.results)
    (unread : Bytes) (fd : Sink UInt8) (hfd : none ∉ fd.results) :
    (copyLoop wrap unread fd).1 ∧ none ∉ (copyLoop wrap unread fd).2.2.results := by
  induction unread, fd using copyLoop.induct wrap with
  | case1 fd =>
    rw [copyLoop]
    exact ⟨rfl, hfd⟩
  | case2 unread fd hne data fd' hw =>
    have hok := (hwrap data fd hfd).1
    rw [hw] at hok
    cases hok
  | case3 unread fd hne data fd' hw ok n fd'' hrest ih =>
    have hok := (hwrap data fd hfd).2
    rw [copyLoop, if_neg hne]
    rw [hw] at hok
    simp only [data] at hw
    simp only [hw]
    exact ih hok

theorem storeChunk_unfailing
    (hwrap : ∀ data fd, none ∉ fd.results → (wrap data fd).1 ∧ none ∉ (wrap data fd).2.results)
    (d : BlockPoolData) (fd : Sink UInt8) (hfd : none ∉ fd.results) :
    (storeChunk wrap d fd).1 ∧ none ∉ (storeChunk wrap d fd).2.2.results := by
  obtain ⟨chunk, pos⟩ := d
  cases chunk with
  | file content =>
    have hcopy := copyLoop_unfailing hwrap (content.drop pos) fd hfd
    rcases h : copyLoop wrap (content.drop pos) fd with ⟨ok, n, fd'⟩
    rw [h] at hcopy
    obtain ⟨rfl, hfd'⟩ := hcopy
    simp only [storeChunk, h]
    exact ⟨trivial, hfd'⟩
  | memory bytes hpos hlen => exact hwrap bytes fd hfd

theorem storeChunks_unfailing (wrap : Bytes → Sink UInt8 → Bool × Sink UInt8)
    (hwrap : ∀ data fd, none ∉ fd.results → (wrap data fd).1 ∧ none ∉ (wrap data fd).2.results)
    (ds : List BlockPoolData) (fd : Sink UInt8) (hfd : none ∉ fd.results) :
    (storeChunks wrap ds fd).1 := by
  induction ds generalizing fd with
  | nil => rfl
  | cons d ds ih =>
    have hd := storeChunk_unfailing hwrap d fd hfd
    rcases h : storeChunk wrap d fd with ⟨ok, d', fd'⟩
    rw [h] at hd
    obtain ⟨rfl, hfd'⟩ := hd
    simp only [storeChunks, h]
    exact ih fd' hfd'

theorem fileStore_unfailing (hwrites : none ∉ writes) (ds : List BlockPoolData) :
    (fileStore smooth ⟨none, ds, writes⟩).1 = .ok ∧
      (fileStore smooth ⟨none, ds, writes⟩).2.path = some (ds.flatMap (BlockPoolData.offer 32)) := by
  have hok := storeChunks_unfailing (writeWrap 32) (fun data fd hfd => write_unfailing hfd _) ds
    ⟨[], writes⟩ hwrites
  have hoffer := (storeChunks_offered .file ds ⟨[], writes⟩).1
  change Offered (ds.flatMap (offer 32)) ⟨[], writes⟩
    ((storeChunks (writeWrap 32) ds ⟨[], writes⟩).1, (storeChunks (writeWrap 32) ds ⟨[], writes⟩).2.2) at hoffer
  rcases h : storeChunks (writeWrap 32) ds ⟨[], writes⟩ with ⟨ok, ds', fd⟩
  rw [h] at hok hoffer
  obtain rfl : ok := hok
  have hstore : fileStore smooth ⟨none, ds, writes⟩ = (.ok, ⟨some fd.content, ds', fd.results⟩) := by
    simp [fileStore, openAndWrite, smooth, h]
  rw [hstore]
  cases hoffer with
  | all rs => exact ⟨rfl, rfl⟩

end

/-- The HTTP transport sends, in a first request and in any later one, and the
File transport writes, the bytes of all chunks in order. -/
structure SameBytes (cs : List Chunk) : Prop where
  http : ∀ chunks, AfterTries cs chunks → SendsAll chunks
  file : ∀ writes, none ∉ writes → (fileStore smooth ⟨none, added cs, writes⟩).1 = .ok ∧
    (fileStore smooth ⟨none, added cs, writes⟩).2.path = some (contents cs)

/-- For every list of chunks: both transports send its bytes exactly if it is of
one kind and File can count each of its memory chunks. -/
theorem sameBytes_iff (cs : List Chunk) :
    SameBytes cs ↔ OneKind cs ∧ ∀ c ∈ cs, BlockPoolData.Intact 32 ⟨c, 0⟩ := by
  have hchunks : (added cs).map chunk = cs := by simp [added, Function.comp_def]
  have hintact : (∀ d ∈ added cs, d.Intact 32) ↔ ∀ c ∈ cs, BlockPoolData.Intact 32 ⟨c, 0⟩ := by
    simp [added]
  rw [← hintact]
  have hoffers := offers_eq_iff .file (added cs)
  rw [hchunks] at hoffers
  constructor
  · intro h
    refine ⟨oneKind_of_sendsAll (h.http _ .start), hoffers.mp ?_⟩
    have hpath := (h.file [] not_mem_nil).2
    rw [(fileStore_unfailing not_mem_nil (added cs)).2] at hpath
    exact Option.some.inj hpath
  · rintro ⟨hkind, hsmall⟩
    refine ⟨fun chunks hafter => sendsAll_of_oneKind (hafter.chunks ▸ hkind), fun writes hwrites => ?_⟩
    obtain ⟨hok, hpath⟩ := fileStore_unfailing hwrites (added cs)
    exact ⟨hok, hpath.trans (congrArg some (hoffers.mpr hsmall))⟩

/-- The callback answers 0 at the end of the first file. -/
theorem memory_behind_file_not_sent :
    ¬SameBytes [.file [1], .memory [2] (by decide) (by decide)] := by
  intro h
  obtain ⟨calls, chunks, htry⟩ := h.http _ .start (fun _ => 10) fun _ => by decide
  obtain ⟨context, hpull⟩ := pull_of_httpTryStore htry
  have hshort : pull readCallback (fun _ => 10) 2 0
      ⟨[], [⟨.file [1], 0⟩, ⟨.memory [2] (by decide) (by decide), 0⟩], 0⟩ =
        .ok ([1], true, ⟨[], [⟨.file [1], 1⟩, ⟨.memory [2] (by decide) (by decide), 0⟩], 1⟩) := rfl
  exact absurd (pull_dry_unique hpull hshort) (by decide)

end Razorback.Transfer
